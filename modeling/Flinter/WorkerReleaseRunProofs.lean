import Flinter.WorkerReleaseProofs

/-! # LinkageWorker: every linkage is released once

    What the worker has in its hands at each point of `Run`, added to `Core`:
    between two callbacks and in them the watchers, in a sweep the clients that
    are left.  Each step keeps it, and with it the log of every run tells a life
    for each linkage; when `Run` returns there is no linkage left on the worker,
    so that each that was attached was disconnected. -/

namespace FlinterWorkerRelease

open Runs FlinterLinkageLife

variable {s s' : LinkageWorker} {life : Nat → Life} {c l : Nat} {a : Bool}

-- ── The invariant of the machine ─────────────────────────────────────────────

/-- The clients that are still to be released. -/
def LinkageWorker.unreleased (s : LinkageWorker) : Nat → Prop :=
  match s.doing with
  | .releasing _ (.sweep rest) => fun c => c ∈ rest
  | .done => fun _ => False
  | _ => s.Listed

/-- The client that is being released. -/
def LinkageWorker.inRelease (s : LinkageWorker) : Option Nat :=
  match s.doing with
  | .releasing c _ => some c
  | _ => none

/-- A client in the map that no `Attach` in progress will take out of it. -/
def Held (s : LinkageWorker) (c : Nat) : Prop :=
  s.Listed c ∧ (s.clients c).linkage ∉ s.attaching

/-- What the worker has in its hands. -/
def Sound (s : LinkageWorker) : Doing → Prop
  | .idle => Watched s ∧ s.attaching = []
  | .calling => Watched s
  | .leaving => Watched s
  | .event c _ => Watched s ∧ Held s c
  | .error c => Watched s ∧ Held s c
  | .releasing _ .loop => Watched s
  | .releasing _ (.drops rest) =>
      Watched s ∧ s.attaching = [] ∧ rest.Nodup ∧ ∀ c ∈ rest, s.Listed c
  | .releasing _ (.sweep rest) => s.attaching = [] ∧ rest.Nodup
  | .cleaning c todo drops =>
      Watched s ∧ s.attaching = [] ∧ (drops ++ c :: todo).Nodup ∧
        ∀ c' ∈ drops ++ c :: todo, s.Listed c'
  | .done => s.attaching = [] ∧ ∀ l, s.events l = none

/-- **THE INVARIANT** of a worker that runs. -/
def Inv (s : LinkageWorker) : Prop :=
  (∃ life, Core s s.unreleased s.inRelease life) ∧ Sound s s.doing

theorem doRelease_erase (halive : s.alive c = true)
    (hevents : s.events (s.clients c).linkage = some c) (after : After) :
    doRelease c true after s =
      { stop c s with
        events := Function.update s.events (s.clients c).linkage none
        doing := .releasing c after
        log := s.log ++ [((s.clients c).linkage, .onDisconnected)] } := by
  have hfound : (s.violated || s.events (s.clients c).linkage != some c) =
      s.violated := by
    rw [hevents, bne_self_eq_false, Bool.or_false]
  rw [doRelease]
  rw [touch_of_alive halive]
  show ({ stop c s with
    violated := s.violated || s.events (s.clients c).linkage != some c
    events := Function.update s.events (s.clients c).linkage none
    doing := .releasing c after
    log := s.log ++ [((s.clients c).linkage, .onDisconnected)] } : LinkageWorker) = _
  rw [hfound]
  rfl

theorem doRelease_keep (halive : s.alive c = true) (after : After) :
    doRelease c false after s =
      { stop c s with
        doing := .releasing c after
        log := s.log ++ [((s.clients c).linkage, .onDisconnected)] } := by
  rw [doRelease]
  rw [touch_of_alive halive]
  rfl

/-- A client leaves the map and is released, in the middle of `Run`. -/
theorem Core.doReleaseErase (h : Core s s.Listed none life)
    (hw : Watched s) (ha : s.attaching = []) (hc : s.Listed c) (after : After) :
    (∃ life', Core (doRelease c true after s) (doRelease c true after s).Listed
      (some c) life') ∧
    Watched (doRelease c true after s) ∧
    ∀ c', c' ≠ c → s.Listed c' → (doRelease c true after s).Listed c' := by
  obtain ⟨hevents, halive⟩ := h.opened c hc
  rw [doRelease_erase halive hevents after]
  generalize hs' : ({ stop c s with
    events := Function.update s.events (s.clients c).linkage none
    doing := .releasing c after
    log := s.log ++ [((s.clients c).linkage, .onDisconnected)] } : LinkageWorker) = s'
  have hevents' : s'.events = Function.update s.events (s.clients c).linkage none := by
    rw [← hs']
  have hkept : ∀ l, l ≠ (s.clients c).linkage → s'.events l = s.events l := by
    intro l hl
    rw [hevents', Function.update_of_ne hl]
  have hmore : ∀ l c', s'.events l = some c' → s.events l = some c' := by
    intro l c' hl
    by_cases heq : l = (s.clients c).linkage
    · rw [hevents', heq, Function.update_self] at hl
      exact absurd hl (by simp)
    · rwa [hkept l heq] at hl
  have hstay : ∀ c', c' ≠ c → s.Listed c' → s'.Listed c' := by
    rintro c' hne ⟨l, hl⟩
    refine ⟨l, ?_⟩
    rw [hkept l]
    · exact hl
    · rintro rfl
      rw [hevents] at hl
      exact hne (Option.some.inj hl).symm
  have hlisted : s'.Listed = fun c' => s.Listed c' ∧ c' ≠ c := by
    funext c'
    refine propext ⟨?_, fun hc' => hstay c' hc'.2 hc'.1⟩
    rintro ⟨l, hl⟩
    refine ⟨⟨l, hmore l c' hl⟩, ?_⟩
    rintro rfl
    have hlinkage := h.linked l c' (hmore l c' hl)
    rw [hevents', ← hlinkage, Function.update_self] at hl
    exact absurd hl (by simp)
  refine ⟨⟨Function.update life (s.clients c).linkage
    (.released (s.clients c).autoRelease), ?_⟩, ?_, hstay⟩
  · rw [hlisted]
    exact h.release ha hc (by rw [← hs']; rfl) (by rw [← hs']; rfl)
      (by rw [← hs']; rfl) (by rw [← hs']; rfl) (by rw [← hs']; exact h.sound)
      (by rw [← hs']) hkept hmore
  · exact hw.leave (by rw [← hs']; rfl) (by rw [← hs']) hstay

/-- `DoRelease` from an event. -/
theorem Inv.doRelease (h : Core s s.Listed none life) (hw : Watched s)
    (ha : s.attaching = []) (hc : s.Listed c) : Inv (doRelease c true .loop s) := by
  obtain ⟨hcore, hwatched, -⟩ := h.doReleaseErase hw ha hc .loop
  exact ⟨hcore, hwatched⟩

theorem Inv.idle (h : Core s s.Listed none life) (hw : Watched s)
    (ha : s.attaching = []) : Inv { s with doing := .idle } :=
  ⟨⟨life, h.frame rfl rfl rfl rfl rfl rfl fun _ => ⟨rfl, rfl⟩⟩, hw, ha⟩

/-- The drops of a health check, one after the other. -/
theorem Inv.drops (h : Core s s.Listed none life) (hw : Watched s)
    (ha : s.attaching = []) {rest : List Nat} (hnodup : rest.Nodup)
    (hrest : ∀ c ∈ rest, s.Listed c) : Inv (proceed (.drops rest) s) := by
  cases rest with
  | nil => exact .idle h hw ha
  | cons c rest =>
      obtain ⟨hnot, hnodup⟩ := List.nodup_cons.mp hnodup
      have hc := hrest c List.mem_cons_self
      obtain ⟨hcore, hwatched, hstay⟩ :=
        h.doReleaseErase hw ha hc (.drops rest)
      refine ⟨hcore, hwatched, ?_, hnodup, ?_⟩
      · obtain ⟨hevents, halive⟩ := h.opened c hc
        show (FlinterWorkerRelease.doRelease c true (.drops rest) s).attaching = []
        rw [doRelease_erase halive hevents]
        exact ha
      · intro c' hc'
        refine hstay c' ?_ (hrest c' (List.mem_cons_of_mem c hc'))
        rintro rfl
        exact hnot hc'

/-- The sweep at the end of `Run`, one after the other. -/
theorem Inv.sweep {rest : List Nat} (h : Core s (fun c => c ∈ rest) none life)
    (ha : s.attaching = []) (hnodup : rest.Nodup) :
    Inv (proceed (.sweep rest) s) := by
  cases rest with
  | nil =>
      refine ⟨⟨life, fun _ c (hl : none = some c) => absurd hl (by simp),
        fun _ hc => hc.elim, fun c (hc : none = some c) => absurd hc (by simp),
        h.attaching, h.sound, h.lived, ?_⟩, ha, fun _ => rfl⟩
      intro l
      refine (h.agrees l).other rfl Iff.rfl ?_ (fun _ _ _ => rfl)
        (fun _ hc => absurd hc (by simp))
      intro c
      exact ⟨fun hc => hc.1.elim, fun hc => absurd hc.1 List.not_mem_nil⟩
  | cons c rest =>
      obtain ⟨hnot, hnodup⟩ := List.nodup_cons.mp hnodup
      have halive := (h.opened c List.mem_cons_self).2
      show Inv (FlinterWorkerRelease.doRelease c false (.sweep rest) s)
      rw [doRelease_keep halive]
      refine ⟨⟨Function.update life (s.clients c).linkage
        (.released (s.clients c).autoRelease), ?_⟩, ha, hnodup⟩
      have hopens : (fun c' => c' ∈ rest) = fun c' => c' ∈ c :: rest ∧ c' ≠ c := by
        funext c'
        refine propext ⟨?_, ?_⟩
        · intro hc'
          refine ⟨List.mem_cons_of_mem c hc', ?_⟩
          rintro rfl
          exact hnot hc'
        · rintro ⟨hc', hne⟩
          exact (List.mem_cons.mp hc').resolve_left hne
      show Core _ (fun c' => c' ∈ rest) (some c) _
      rw [hopens]
      exact h.release ha List.mem_cons_self rfl rfl rfl rfl h.sound rfl
        (fun _ _ => rfl) (fun _ _ hl => hl)

-- ── Each step ────────────────────────────────────────────────────────────────

/-- Where attaching is allowed the clients in the map are all to be released. -/
theorem unreleased_of_mayAttach (h : s.doing.mayAttach = true) :
    s.unreleased = s.Listed := by
  rw [LinkageWorker.unreleased]
  cases hdoing : s.doing with
  | releasing c after =>
      cases after with
      | sweep rest =>
          rw [hdoing] at h
          exact absurd h (by simp [Doing.mayAttach])
      | _ => rfl
  | done =>
      rw [hdoing] at h
      exact absurd h (by simp [Doing.mayAttach])
  | _ => rfl

/-- What is in the worker's hands there is watchers, and the client of an event. -/
theorem sound_of_mayAttach (h : s.doing.mayAttach = true)
    (hsound : Sound s s.doing) (hw : Watched s → Watched s')
    (hheld : ∀ c, Held s c → Held s' c) : Sound s' s.doing := by
  cases hdoing : s.doing with
  | calling =>
      rw [hdoing] at hsound
      exact hw hsound
  | leaving =>
      rw [hdoing] at hsound
      exact hw hsound
  | event c d =>
      rw [hdoing] at hsound
      exact ⟨hw hsound.1, hheld c hsound.2⟩
  | error c =>
      rw [hdoing] at hsound
      exact ⟨hw hsound.1, hheld c hsound.2⟩
  | releasing c after =>
      rw [hdoing] at h hsound
      cases after with
      | loop => exact hw hsound
      | _ => exact absurd h (by simp [Doing.mayAttach])
  | _ =>
      rw [hdoing] at h
      exact absurd h (by simp [Doing.mayAttach])

/-- A step that returns to the same place. -/
theorem Inv.of_mayAttach (h : s.doing.mayAttach = true) (hsound : Sound s s.doing)
    (hdoing : s'.doing = s.doing) (hcore : ∃ life, Core s' s'.Listed s.inRelease life)
    (hw : Watched s → Watched s') (hheld : ∀ c, Held s c → Held s' c) : Inv s' := by
  constructor
  · rw [unreleased_of_mayAttach (by rw [hdoing]; exact h)]
    rw [LinkageWorker.inRelease] at hcore ⊢
    rw [hdoing]
    exact hcore
  · rw [hdoing]
    exact sound_of_mayAttach h hsound hw hheld

/-- Watchers may change wherever the user's code runs. -/
theorem Sound.frame {doing : Doing} (h : Sound s doing)
    (hw : Watched s → Watched s') (hevents : s'.events = s.events)
    (hattaching : s'.attaching = s.attaching) (hheld : ∀ c, Held s c → Held s' c) :
    Sound s' doing := by
  have hlisted : ∀ c, s.Listed c → s'.Listed c := by
    rintro c ⟨l, hl⟩
    exact ⟨l, by rw [hevents]; exact hl⟩
  cases doing with
  | idle => exact ⟨hw h.1, hattaching.trans h.2⟩
  | calling => exact hw h
  | leaving => exact hw h
  | event c d => exact ⟨hw h.1, hheld c h.2⟩
  | error c => exact ⟨hw h.1, hheld c h.2⟩
  | releasing c after =>
      cases after with
      | loop => exact hw h
      | drops rest =>
          obtain ⟨hwatched, ha, hnodup, hrest⟩ := h
          exact ⟨hw hwatched, hattaching.trans ha, hnodup,
            fun c hc => hlisted c (hrest c hc)⟩
      | sweep rest => exact ⟨hattaching.trans h.1, h.2⟩
  | cleaning c todo drops =>
      obtain ⟨hwatched, ha, hnodup, hall⟩ := h
      exact ⟨hw hwatched, hattaching.trans ha, hnodup,
        fun c hc => hlisted c (hall c hc)⟩
  | done => exact ⟨hattaching.trans h.1, fun l => by rw [hevents]; exact h.2 l⟩

section Steps

variable {readNow writeNow : Bool} {rest : List Nat}

theorem Inv.attach (h : Inv s) (hmay : s.doing.mayAttach = true)
    (hw : s.worker l = false) (hc : s.alive c = false) :
    Inv (attach l c readNow writeNow a s) := by
  obtain ⟨⟨life, hcore⟩, hsound⟩ := h
  rw [unreleased_of_mayAttach hmay] at hcore
  obtain ⟨-, hnone⟩ := hcore.unlisted hw
  have hnot := hcore.not_listed hc
  refine .of_mayAttach hmay hsound (by rw [attach_eq hnone])
    ⟨_, hcore.attach hw hc⟩ (fun hwatched => hwatched.attach hnone hnot) ?_
  rintro c' ⟨⟨l', hl'⟩, hnotin⟩
  have hne : c' ≠ c := by
    rintro rfl
    exact hnot ⟨l', hl'⟩
  have hlinkage := hcore.linked l' c' hl'
  have hnel : l' ≠ l := by
    rintro rfl
    rw [hnone] at hl'
    exact absurd hl' (by simp)
  rw [attach_eq hnone]
  refine ⟨⟨l', ?_⟩, ?_⟩
  · show Function.update s.events l (some c) l' = some c'
    rw [Function.update_of_ne hnel]
    exact hl'
  · show (Function.update s.clients c _ c').linkage ∉ l :: s.attaching
    rw [Function.update_of_ne hne, List.mem_cons, not_or, hlinkage]
    rw [hlinkage] at hnotin
    exact ⟨hnel, hnotin⟩

theorem Inv.attachDone (h : Inv s) (hmay : s.doing.mayAttach = true)
    (ha : s.attaching = l :: rest) (ok : Bool) : Inv (attachDone l rest ok s) := by
  obtain ⟨⟨life, hcore⟩, hsound⟩ := h
  rw [unreleased_of_mayAttach hmay] at hcore
  obtain ⟨c, -, -, hevents, hlinkage, -, -⟩ := hcore.top ha
  cases ok with
  | true =>
      have hcore' := hcore.attachTrue ha
      rw [attachDone_true hevents] at hcore' ⊢
      refine .of_mayAttach hmay hsound rfl hcore' id ?_
      rintro c' ⟨hc', hnot⟩
      refine ⟨hc', fun hmem => hnot ?_⟩
      rw [ha]
      exact List.mem_cons_of_mem l hmem
  | false =>
      have hcore' := hcore.attachFalse ha
      have hstay : ∀ c', c' ≠ c → s.Listed c' →
          (FlinterWorkerRelease.attachDone l rest false s).Listed c' := by
        rintro c' hne ⟨l', hl'⟩
        refine ⟨l', ?_⟩
        rw [attachDone_false hevents]
        show Function.update s.events l none l' = some c'
        rw [Function.update_of_ne]
        · exact hl'
        · rintro rfl
          rw [hevents] at hl'
          exact hne (Option.some.inj hl').symm
      refine .of_mayAttach hmay hsound (by rw [attachDone_false hevents]; rfl)
        hcore' (fun hwatched => hwatched.leave (by rw [attachDone_false hevents]; rfl)
          (by rw [attachDone_false hevents]) hstay) ?_
      rintro c' ⟨hc', hnot⟩
      have hmem : l ∈ s.attaching := by
        rw [ha]
        exact List.mem_cons_self
      refine ⟨hstay c' ?_ hc', ?_⟩
      · rintro rfl
        rw [hlinkage] at hnot
        exact hnot hmem
      · rw [attachDone_false hevents]
        intro hrest
        apply hnot
        rw [ha]
        exact List.mem_cons_of_mem l hrest

/-- A watcher is changed, wherever the user's code runs. -/
theorem Inv.wanna (h : Inv s) {d : Direction} {on : Bool} (hc : s.Listed c) :
    Inv (wanna c d on s) := by
  obtain ⟨⟨life, hcore⟩, hsound⟩ := h
  have hlisted : (FlinterWorkerRelease.wanna c d on s).Listed = s.Listed := by
    unfold LinkageWorker.Listed
    rw [wanna_events]
  constructor
  · refine ⟨life, ?_⟩
    rw [LinkageWorker.unreleased, LinkageWorker.inRelease] at hcore ⊢
    rw [wanna_doing, hlisted]
    exact hcore.wanna
  · rw [wanna_doing]
    refine hsound.frame (fun hw => hw.wanna hc) wanna_events wanna_attaching ?_
    rintro c' ⟨hc', hnot⟩
    refine ⟨by rw [hlisted]; exact hc', ?_⟩
    rw [(wanna_clients c').1, wanna_attaching]
    exact hnot

theorem Inv.setWannaOne (h : Inv s) (l : Nat) (d : Direction) (on : Bool) :
    Inv (setWannaOne l d on s) := by
  rw [FlinterWorkerRelease.setWannaOne]
  split
  · exact h
  · rename_i c hc
    exact h.wanna ⟨l, hc⟩

theorem Inv.setWanna (h : Inv s) (l : Nat) (wannaRead wannaWrite : Bool) :
    Inv (setWanna l wannaRead wannaWrite s) := by
  rw [FlinterWorkerRelease.setWanna]
  split
  · exact h
  · rename_i c hc
    refine (h.wanna ⟨l, hc⟩).wanna ?_
    exact ⟨l, by rw [wanna_events]; exact hc⟩

/-- A linkage is called from the loop, with no `Attach` in progress. -/
theorem Inv.callback (h : Core s s.Listed none life) (hw : Watched s)
    (ha : s.attaching = []) (hc : s.Listed c) (callback : Callback) {doing : Doing}
    (hdoing : doing = .error c ∨ ∃ d, doing = .event c d) :
    Inv (note (s.clients c).linkage (.call callback)
      { touch c s with doing := doing }) := by
  rw [touch_of_alive (h.opened c hc).2]
  have hcore := h.call (h.life_of_open ha hc) callback
  have hheld : Held s c := by
    refine ⟨hc, ?_⟩
    rw [ha]
    exact List.not_mem_nil
  rcases hdoing with rfl | ⟨d, rfl⟩
  · exact ⟨⟨life, hcore.frame rfl rfl rfl rfl rfl rfl fun _ => ⟨rfl, rfl⟩⟩, hw,
      hheld⟩
  · exact ⟨⟨life, hcore.frame rfl rfl rfl rfl rfl rfl fun _ => ⟨rfl, rfl⟩⟩, hw,
      hheld⟩

/-- The first loop of a health check. -/
theorem Inv.clean (h : Core s s.Listed none life) (hw : Watched s)
    (ha : s.attaching = []) {todo drops : List Nat} (hnodup : (drops ++ todo).Nodup)
    (hall : ∀ c ∈ drops ++ todo, s.Listed c) : Inv (clean todo drops s) := by
  cases todo with
  | nil =>
      rw [List.append_nil] at hnodup hall
      exact .drops h hw ha hnodup hall
  | cons c todo =>
      have hc := hall c (List.mem_append_right _ List.mem_cons_self)
      show Inv (note (s.clients c).linkage (.call .cleanup)
        { touch c s with doing := .cleaning c todo drops })
      rw [touch_of_alive (h.opened c hc).2]
      have hcore := h.call (h.life_of_open ha hc) .cleanup
      exact ⟨⟨life, hcore.frame rfl rfl rfl rfl rfl rfl fun _ => ⟨rfl, rfl⟩⟩, hw, ha,
        hnodup, hall⟩

/-- The rest of `DoRelease` is about the client and the log. -/
theorem released_fields : (released c s).events = s.events ∧
    (released c s).clients = s.clients ∧ (released c s).started = s.started ∧
    (released c s).attaching = s.attaching := by
  rw [released]
  dsimp only
  split <;> exact ⟨rfl, rfl, rfl, rfl⟩

/-- `DoRelease` goes back to where it was called. -/
theorem Inv.released {after : After} (h : Inv s)
    (hdoing : s.doing = .releasing c after) (ha : s.attaching = []) :
    Inv (proceed after (released c s)) := by
  obtain ⟨⟨life, hcore⟩, hsound⟩ := h
  obtain ⟨hevents, hclients, hstarted, hattaching⟩ := released_fields (c := c) (s := s)
  rw [hdoing] at hsound
  rw [ha] at hattaching
  have hlisted : (FlinterWorkerRelease.released c s).Listed = s.Listed := by
    unfold LinkageWorker.Listed
    rw [hevents]
  have hwatched : Watched s → Watched (FlinterWorkerRelease.released c s) := by
    intro hw c' d hon
    rw [hstarted] at hon
    rw [hlisted, hclients]
    exact hw c' d hon
  rw [LinkageWorker.unreleased, LinkageWorker.inRelease] at hcore
  rw [hdoing] at hcore
  obtain ⟨life', hcore'⟩ := hcore.released
  cases after with
  | loop =>
      rw [← hlisted] at hcore'
      exact .idle hcore' (hwatched hsound) hattaching
  | drops rest =>
      obtain ⟨hw, -, hnodup, hrest⟩ := hsound
      rw [← hlisted] at hcore' hrest
      exact .drops hcore' (hwatched hw) hattaching hnodup hrest
  | sweep rest => exact .sweep hcore' hattaching hsound.2

theorem Inv.onReturn (h : Inv s) (ret : Int) (hl : s.doing ≠ .leaving)
    (huser : s.doing.user = true) (ha : s.attaching = []) : Inv (onReturn ret s) := by
  have hinv := h
  obtain ⟨⟨life, hcore⟩, hsound⟩ := h
  rw [LinkageWorker.unreleased, LinkageWorker.inRelease] at hcore
  rw [FlinterWorkerRelease.onReturn]
  cases hdoing : s.doing with
  | idle =>
      rw [hdoing] at huser
      exact absurd huser (by simp [Doing.user])
  | done =>
      rw [hdoing] at huser
      exact absurd huser (by simp [Doing.user])
  | leaving => exact absurd hdoing hl
  | calling =>
      rw [hdoing] at hcore hsound
      exact .idle hcore hsound ha
  | event c d =>
      rw [hdoing] at hcore hsound
      obtain ⟨hw, hc, -⟩ := hsound
      show Inv (if ret < 0 then onError c s
        else if ret = 0 then FlinterWorkerRelease.doRelease c true .loop s
        else { s with doing := .idle })
      split
      · exact .callback hcore hw ha hc .onError (.inl rfl)
      · split
        · exact .doRelease hcore hw ha hc
        · exact .idle hcore hw ha
  | error c =>
      rw [hdoing] at hcore hsound
      obtain ⟨hw, hc, -⟩ := hsound
      exact .doRelease hcore hw ha hc
  | releasing c after => exact hinv.released hdoing ha
  | cleaning c todo drops =>
      rw [hdoing] at hcore hsound
      obtain ⟨hw, -, hnodup, hall⟩ := hsound
      show Inv (FlinterWorkerRelease.clean todo
        (if ret = 0 then drops ++ [c] else drops) s)
      split
      · rw [← List.singleton_append, ← List.append_assoc] at hnodup hall
        exact .clean hcore hw ha hnodup hall
      · have hsub : (drops ++ todo).Sublist (drops ++ c :: todo) :=
          (List.sublist_cons_self c todo).append_left drops
        exact .clean hcore hw ha (hnodup.sublist hsub)
          fun c' hc' => hall c' (hsub.subset hc')

/-- While an `Attach` is in progress no sweep is. -/
theorem mayAttach_of_attaching (h : Sound s s.doing)
    (ha : s.attaching = l :: rest) : s.doing.mayAttach = true := by
  have hne : s.attaching ≠ [] := by
    rw [ha]
    exact List.cons_ne_nil l rest
  cases hdoing : s.doing with
  | idle =>
      rw [hdoing] at h
      exact absurd h.2 hne
  | done =>
      rw [hdoing] at h
      exact absurd h.1 hne
  | cleaning c todo drops =>
      rw [hdoing] at h
      exact absurd h.2.1 hne
  | releasing c after =>
      rw [hdoing] at h
      cases after with
      | loop => rfl
      | drops rest => exact absurd h.2.1 hne
      | sweep rest => exact absurd h.1 hne
  | _ => rfl

/-- **THE STEP**: whatever happens next. -/
theorem Inv.step {act : Act} (h : Inv s) (hs : Step s act s') : Inv s' := by
  have hinv := h
  obtain ⟨⟨life, hcore⟩, hsound⟩ := h
  rw [LinkageWorker.unreleased, LinkageWorker.inRelease] at hcore
  cases hs with
  | event c d hidle hon =>
      rw [hidle] at hcore hsound
      obtain ⟨hw, ha⟩ := hsound
      exact .callback hcore hw ha (hw c d hon).1 _ (.inr ⟨d, rfl⟩)
  | call hidle =>
      rw [hidle] at hcore hsound
      exact ⟨⟨life, hcore.frame rfl rfl rfl rfl rfl rfl fun _ => ⟨rfl, rfl⟩⟩,
        hsound.1⟩
  | health order hidle ho =>
      rw [hidle] at hcore hsound
      obtain ⟨hw, ha⟩ := hsound
      exact .clean hcore hw ha ho.1 fun c hc => (ho.2 c).mp hc
  | quit hidle =>
      rw [hidle] at hcore hsound
      exact ⟨⟨life, hcore.frame rfl rfl rfl rfl rfl rfl fun _ => ⟨rfl, rfl⟩⟩,
        hsound.1⟩
  | sweep order hleaving ha ho =>
      rw [hleaving] at hcore
      have hopens : s.Listed = fun c => c ∈ order := by
        funext c
        exact propext (ho.2 c).symm
      replace hcore : Core s s.Listed none life := hcore
      rw [hopens] at hcore
      exact .sweep hcore ha ho.1
  | attach l c readNow writeNow autoRelease hmay hw hc => exact hinv.attach hmay hw hc
  | attachDone l rest ok ha =>
      exact hinv.attachDone (mayAttach_of_attaching hsound ha) ha ok
  | setWanna l wannaRead wannaWrite _ _ => exact hinv.setWanna l wannaRead wannaWrite
  | setWannaOne l d on _ _ => exact hinv.setWannaOne l d on
  | onReturn ret huser hl ha => exact hinv.onReturn ret hl huser ha

end Steps

theorem Inv.reachable (h : Reachable worker s) : Inv s := by
  refine h.invariant ?_ ?_
  · rintro _ rfl
    refine ⟨⟨fun _ => .out, fun _ _ hl => absurd hl (by simp [LinkageWorker.new]),
      ?_, fun _ hc => absurd hc (by simp [LinkageWorker.inRelease, LinkageWorker.new]),
      List.nodup_nil, rfl, fun _ => .nil, ?_⟩, ?_⟩
    · rintro c ⟨l, hl⟩
      exact absurd hl (by simp [LinkageWorker.new])
    · intro l
      refine ⟨rfl, ?_, fun a hst => absurd hst (by simp [Life.onWorker]), ?_,
        fun hst => absurd hst (by simp)⟩
      · exact ⟨fun hmem => absurd hmem List.not_mem_nil,
          fun hst => absurd hst (by simp [Life.isAttaching])⟩
      · rintro - c ⟨l, hl⟩
        exact absurd hl (by simp [LinkageWorker.new])
    · intro c d hon
      exact absurd hon (by simp [LinkageWorker.new])
  · intro s act s' _ hinv hs
    exact hinv.step hs

-- ── Released once ────────────────────────────────────────────────────────────

/-- How often a linkage was disconnected and deleted. -/
def LinkageWorker.disconnections (s : LinkageWorker) (l : Nat) : Nat :=
  (seen l s.log).count .onDisconnected

def LinkageWorker.deletions (s : LinkageWorker) (l : Nat) : Nat :=
  (seen l s.log).count .deleted

/-- **RELEASED ONCE**: in every run no assertion fails and no deleted client is used;
    a linkage is disconnected at most once, deleted at most once, and after
    `OnDisconnected` nothing happens to it but that.  Whenever the worker waits,
    and when `Run` returns, a linkage that was attached and is not in the map any
    more was disconnected once, and deleted once if the worker owns it and never
    if not; when `Run` returns none is in the map. -/
theorem released_once (h : Reachable worker s) :
    s.violated = false ∧
    (∀ l, s.disconnections l ≤ 1 ∧ s.deletions l ≤ 1 ∧
      Throughout (fun pre e => .onDisconnected ∈ pre → e = .deleted)
        (seen l s.log)) ∧
    (s.doing = .idle ∨ s.doing = .done → ∀ l a, (l, .attached a) ∈ s.log →
      if s.events l = none then
        s.disconnections l = 1 ∧ s.deletions l = if a then 1 else 0
      else s.disconnections l = 0 ∧ s.deletions l = 0) ∧
    (s.doing = .done → ∀ l, s.events l = none) := by
  obtain ⟨⟨life, hcore⟩, hsound⟩ := Inv.reachable h
  refine ⟨hcore.sound, ?_, ?_, ?_⟩
  · intro l
    have hlived := hcore.lived l
    rw [LinkageWorker.disconnections, LinkageWorker.deletions]
    rw [hlived.count_onDisconnected, hlived.count_deleted]
    refine ⟨?_, ?_, hlived.quiet⟩
    · cases life l <;> simp [Life.disconnections]
    · cases life l <;> simp [Life.deletions]
  · intro hdoing l a hmem
    have hlived := hcore.lived l
    have hagrees := hcore.agrees l
    have hcurrent : s.inRelease = none := by
      rw [LinkageWorker.inRelease]
      rcases hdoing with hdoing | hdoing <;> rw [hdoing]
    have hgone : (life l).onWorker = none → s.events l = none := by
      intro hst
      rcases hdoing with hdoing | hdoing
      · have hopens : s.unreleased = s.Listed := by
          rw [LinkageWorker.unreleased]
          rw [hdoing]
        cases hevents : s.events l with
        | none => rfl
        | some c =>
            have hclosed := hagrees.closed hst c
            rw [hopens] at hclosed
            exact absurd (hcore.linked l c hevents) (hclosed ⟨l, hevents⟩)
      · rw [hdoing] at hsound
        exact hsound.2 l
    rw [LinkageWorker.disconnections, LinkageWorker.deletions]
    rw [hlived.count_onDisconnected, hlived.count_deleted]
    rcases hlived.of_attached (mem_seen.mpr hmem) with hlife | hlife | ⟨rfl, hlife⟩
    · -- it is in the map
      rw [hlife] at hagrees ⊢
      obtain ⟨c, hc, hlinkage, -⟩ := hagrees.opened a rfl
      have hevents := (hcore.opened c hc).1
      rw [hlinkage] at hevents
      rw [if_neg (by rw [hevents]; simp)]
      exact ⟨rfl, rfl⟩
    · -- it was released, and is not being deleted
      rw [hlife] at hagrees hgone ⊢
      rw [if_pos (hgone rfl)]
      cases a with
      | true =>
          obtain ⟨c, hc, -⟩ := hagrees.current rfl
          rw [hcurrent] at hc
          exact absurd hc (by simp)
      | false => exact ⟨rfl, rfl⟩
    · rw [hlife] at hgone ⊢
      rw [if_pos (hgone rfl)]
      exact ⟨rfl, rfl⟩
  · intro hdone
    rw [hdone] at hsound
    exact hsound.2

theorem worker_next {act : Act} (h : Reachable worker s) (hs : Step s act s') :
    Reachable worker s' :=
  .next h hs

/-- One linkage hangs up while it reads, and another is there when `Run` ends. -/
theorem released_once_two : ∃ s : LinkageWorker, s.doing = .done ∧
    s.violated = false ∧
    (s.disconnections 1 = 1 ∧ s.deletions 1 = 1) ∧
    (s.disconnections 2 = 1 ∧ s.deletions 2 = 0) := by
  have hstart : Reachable worker .new := .start rfl
  have hone := worker_next (worker_next hstart
    (.attach 1 0 true false true rfl rfl rfl)) (.attachDone 1 [] true rfl)
  have htwo := worker_next (worker_next hone
    (.attach 2 5 true false false rfl rfl rfl)) (.attachDone 2 [] true rfl)
  have hread := worker_next (worker_next htwo
    (.onReturn 0 rfl (by decide) rfl)) (.event 0 .read rfl rfl)
  have hfirst := worker_next (worker_next hread
    (.onReturn 0 rfl (by decide) rfl)) (.onReturn 0 rfl (by decide) rfl)
  have hquit := worker_next hfirst (.quit rfl)
  have hsweep := worker_next hquit (.sweep [5] rfl rfl ⟨by decide, ?_⟩)
  · have hdone := worker_next hsweep (.onReturn 0 rfl (by decide) rfl)
    obtain ⟨hsound, -, honce, hnone⟩ := released_once hdone
    have hfirst := honce (.inr rfl) 1 true (by decide)
    have hsecond := honce (.inr rfl) 2 false (by decide)
    rw [if_pos (hnone rfl 1)] at hfirst
    rw [if_pos (hnone rfl 2)] at hsecond
    exact ⟨_, rfl, hsound, hfirst, hsecond⟩
  · intro c
    constructor
    · intro hc
      obtain rfl := List.mem_singleton.mp hc
      exact ⟨2, rfl⟩
    · rintro ⟨l, hl⟩
      replace hl : Function.update (Function.update (Function.update
          (fun _ => none) 1 (some 0)) 2 (some 5)) 1 none l = some c := hl
      by_cases h1 : l = 1
      · rw [h1, Function.update_self] at hl
        exact absurd hl (by simp)
      · by_cases h2 : l = 2
        · rw [h2, Function.update_of_ne (by simp), Function.update_self] at hl
          rw [Option.some.inj hl]
          exact List.mem_singleton_self c
        · rw [Function.update_of_ne h1, Function.update_of_ne h2,
            Function.update_of_ne h1] at hl
          exact absurd hl (by simp)

end FlinterWorkerRelease
