import Flinter.GrowableThreadPoolTurnProofs

/-! # GrowableThreadPool: Shutdown and the threads it joins

    `Shutdown` counts an exit for each of its threads, or for each that is idle
    if it cancels the others.  From then on a thread that exits is not reported
    to those that reap.

    It waits for ever if it finds exits that `MaybeShrink` has asked for and
    nobody has taken: the thread that reaps is owed more than has exited, and
    nothing is added to that.  Nor does it return if a thread that it has
    cancelled is done with its job before that takes effect, and takes an exit
    that was counted for an idle one.  Otherwise there is an exit for each that
    is idle, those that reap are owed what has exited, and no thread is blocked
    at all. -/

namespace FlinterGrowableThreadPool

open Runs Tallies

variable {Job : Type} {s s' : GrowableThreadPool Job} {t reaped exits : Nat}
variable {p q : Place Job} {who jobs : Finset Nat} {a : Act Job}

namespace Place

/-- A thread that is to exit, though `Shutdown` does not cancel it, or is to be
    idle first. -/
def serves : Place Job → Nat
  | .running _ false => 1
  | _ => 0

/-- A reaping thread is not done. -/
def Due : Place Job → Prop
  | .reaping reaped exits _ => reaped < exits
  | _ => True

/-- What `Shutdown` makes of a place. -/
def halt (waitForJobsDone : Bool) : Place Job → Place Job
  | .waiting => .woken
  | .running job _ => .running job (!waitForJobsDone)
  | p => p

theorem serves_wake (p : Place Job) : p.wake.serves = p.serves := by
  cases p <;> rfl

theorem due_wake {p : Place Job} : p.wake.Due ↔ p.Due := by
  cases p <;> rfl

theorem Due.of_proper {p : Place Job} (h : p.proper) : p.Due := by
  match p, h with
  | .reaping _ _ _, h => exact h
  | .absent, _ | .starting, _ | .running _ _, _ | .waiting, _ | .woken, _
  | .gone, _ => trivial

theorem due_halt {p : Place Job} (w : Bool) : (p.halt w).Due ↔ p.Due := by
  cases p <;> rfl

theorem live_halt (p : Place Job) (w : Bool) : (p.halt w).live = p.live := by
  cases p <;> rfl

theorem idle_halt (p : Place Job) (w : Bool) : (p.halt w).idle = p.idle := by
  cases p <;> rfl

theorem owed_halt (p : Place Job) (w : Bool) : (p.halt w).owed = p.owed := by
  cases p <;> rfl

theorem serves_halt (p : Place Job) (w : Bool) :
    (p.halt w).serves = if w then p.runs else 0 := by
  cases w
  · cases p <;> rfl
  · cases p <;> rfl

/-- One that does anything in the end is live. -/
theorem live_of_pos {p : Place Job} (h : 0 < p.owed ∨ 0 < p.idle ∨ 0 < p.serves) :
    p.live = 1 := by
  match p, h with
  | .starting, _ | .running _ _, _ | .waiting, _ | .woken, _
  | .reaping _ _ _, _ => rfl
  | .absent, h | .gone, h => rcases h with h | h | h <;> cases h

end Place

-- ── Shutdown ─────────────────────────────────────────────────────────────────

/-- From the swap in `Shutdown` until it has joined its threads. -/
structure Shut (s : GrowableThreadPool Job) : Prop where
  size_pos : 0 < s.size
  initializing : s.initializing = true
  fresh : ∀ t, s.spawned ≤ t → s.place t = .absent
  threads : s.threads = ∅
  actives : s.actives = ∅
  pending : s.pendingJobs = []
  joining : ∀ t, (s.place t).live = 1 → t ∈ s.joining
  due : ∀ t, (s.place t).Due
  room : s.exits < 2 ^ 64

theorem Shut.sizeT_exits (h : Shut s) : sizeT s.exits = s.exits :=
  Nat.mod_eq_of_lt h.room

theorem Shut.lt (h : Shut s) (hlive : (s.place t).live = 1) : t < s.spawned := by
  by_contra hge
  rw [h.fresh t (Nat.le_of_not_lt hge)] at hlive
  cases hlive

/-- A live thread moves. -/
theorem Shut.moved (h : Shut s) (hlive : (s.place t).live = 1) (hq : q.Due)
    {exits : Nat} {exited : List Nat} (hle : exits ≤ s.exits) :
    Shut ({ s with exits := exits, exited := exited }.setPlace t q) := by
  have ht := h.lt hlive
  refine ⟨h.size_pos, h.initializing, ?_, h.threads, h.actives, h.pending, ?_, ?_,
    Nat.lt_of_le_of_lt hle h.room⟩
  · intro u hu
    have hne : u ≠ t := fun heq => by
      rw [heq] at hu
      exact absurd ht (Nat.not_lt.mpr hu)
    show Function.update s.place t q u = .absent
    rw [Function.update_of_ne hne]
    exact h.fresh u hu
  · intro u hu
    show u ∈ s.joining
    by_cases heq : u = t
    · rw [heq]
      exact h.joining t hlive
    · have hu : (Function.update s.place t q u).live = 1 := hu
      rw [Function.update_of_ne heq] at hu
      exact h.joining u hu
  · intro u
    show (Function.update s.place t q u).Due
    by_cases heq : u = t
    · rw [heq, Function.update_self]
      exact hq
    · rw [Function.update_of_ne heq]
      exact h.due u

theorem Shut.wakeUp (h : Shut s) : Shut (s.wakeUp who) := by
  have hcases := wakeUp_place s who
  refine ⟨h.size_pos, h.initializing, ?_, h.threads, h.actives, h.pending, ?_, ?_,
    h.room⟩
  · intro u hu
    rcases hcases u with heq | heq
    · rw [heq, h.fresh u hu]; rfl
    · rw [heq, h.fresh u hu]
  · intro u hu
    show u ∈ s.joining
    rcases hcases u with heq | heq
    · rw [heq, Place.live_wake] at hu
      exact h.joining u hu
    · rw [heq] at hu
      exact h.joining u hu
  · intro u
    rcases hcases u with heq | heq
    · rw [heq, Place.due_wake]; exact h.due u
    · rw [heq]; exact h.due u

-- ── What is left to do ───────────────────────────────────────────────────────

/-- `Shutdown` finds no exit that is yet to be taken, and a thread that it has
    cancelled is done with its job only when no exit is left, if at all. -/
def Timely (s : GrowableThreadPool Job) : Act Job → Prop
  | .shutdown _ => s.exits = 0
  | .requestJob t _ _ => ∀ job, s.place t = .running job true → s.exits = 0
  | _ => True

/-- What a thread does while `Shutdown` joins: it takes an exit, waits for one,
    goes on reaping, or is cancelled. -/
inductive Moves (s : GrowableThreadPool Job) (t : Nat) :
    GrowableThreadPool Job → Prop where
  | exits (exited : List Nat) (hpos : 0 < s.exits)
      (hp : (s.place t).idle + (s.place t).serves = 1)
      (howed : exited.length + (s.place t).owed = s.exited.length) :
      Moves s t ({ s with exits := s.exits - 1, exited := exited }.setPlace t .gone)
  | waits (exited : List Nat) (hzero : s.exits = 0)
      (hp : (s.place t).idle + (s.place t).serves = 1)
      (howed : exited.length + (s.place t).owed = s.exited.length) :
      Moves s t ({ s with exited := exited }.setPlace t .waiting)
  | stalls {reaped exits : Nat} (hp : s.place t = .reaping reaped exits false)
      (hfew : s.exited.length < exits - reaped) :
      Moves s t ({ s with exited := [] }.setPlace t
        (.reaping (reaped + s.exited.length) exits true))
  | ends {job : Job} (hp : s.place t = .running job true) :
      Moves s t (s.setPlace t .gone)

/-- A thread that was cancelled takes an exit. -/
structure Steals (s : GrowableThreadPool Job) (t : Nat)
    (s' : GrowableThreadPool Job) : Prop where
  cancelled : ∃ job, s.place t = .running job true
  pos : 0 < s.exits
  eq : s' = { s with exits := s.exits - 1 }.setPlace t .gone

theorem setPlace_setPlace (p q : Place Job) :
    (s.setPlace t p).setPlace t q = s.setPlace t q := by
  rw [GrowableThreadPool.setPlace, GrowableThreadPool.setPlace,
    GrowableThreadPool.setPlace]
  dsimp only
  rw [Function.update_idem]

/-- Without jobs a thread takes an exit or waits. -/
theorem tryRequestJob_shut {terminated : Bool} (hexits : sizeT s.exits = s.exits)
    (hinitializing : s.initializing = true) (hpending : s.pendingJobs = [])
    (hs : s.tryRequestJob t terminated who = some s') :
    (0 < s.exits ∧ s' = { s with exits := s.exits - 1 }.setPlace t .gone) ∨
    (s.exits = 0 ∧ s' = s.setPlace t (if terminated then .gone else .waiting)) := by
  rw [GrowableThreadPool.tryRequestJob, hexits] at hs
  by_cases hpos : 0 < s.exits
  · rw [if_pos hpos] at hs
    have hs : (if s.initializing = true then
      some ({ s with exits := s.exits - 1 }.setPlace t .gone) else _) = some s' := hs
    rw [if_pos hinitializing] at hs
    exact .inl ⟨hpos, (Option.some.inj hs).symm⟩
  · rw [if_neg hpos, hpending] at hs
    exact .inr ⟨by omega, (Option.some.inj hs).symm⟩

/-- The same of one that got there from its job, or from reaping. -/
theorem tryRequestJob_woken {terminated : Bool} (h : Shut s) (exited : List Nat)
    (hs : ({ s with exited := exited }.setPlace t .woken).tryRequestJob t terminated
      who = some s') :
    (0 < s.exits ∧ s' =
      { s with exits := s.exits - 1, exited := exited }.setPlace t .gone) ∨
    (s.exits = 0 ∧ s' = { s with exited := exited }.setPlace t
      (if terminated then .gone else .waiting)) := by
  have hcases := tryRequestJob_shut (s := { s with exited := exited }.setPlace t .woken)
    h.sizeT_exits h.initializing h.pending hs
  rcases hcases with ⟨hpos, heq⟩ | ⟨hzero, heq⟩
  · refine .inl ⟨hpos, heq.trans ?_⟩
    exact setPlace_setPlace (s := { s with exits := s.exits - 1, exited := exited })
      .woken .gone
  · exact .inr ⟨hzero, heq.trans (setPlace_setPlace .woken _)⟩

/-- Either way it has moved. -/
theorem Moves.of_request (exited : List Nat)
    (hp : (s.place t).idle + (s.place t).serves = 1)
    (howed : exited.length + (s.place t).owed = s.exited.length)
    (hcases : (0 < s.exits ∧ s' =
        { s with exits := s.exits - 1, exited := exited }.setPlace t .gone) ∨
      (s.exits = 0 ∧ s' = { s with exited := exited }.setPlace t .waiting)) :
    Moves s t s' := by
  rcases hcases with ⟨hpos, rfl⟩ | ⟨hzero, rfl⟩
  · exact .exits exited hpos hp howed
  · exact .waits exited hzero hp howed

/-- A thread that comes to `RequestJob` does not shrink the pool. -/
theorem Shut.requestJob (h : Shut s)
    (hs : s.requestJob t jobs who = some s') :
    (Timely s (.requestJob t jobs who) ∧ Moves s t s') ∨ Steals s t s' := by
  have hshrink : ∀ {terminated : Bool},
      (s.enter t).maybeShrink t terminated jobs who = some s' →
      (0 < s.exits ∧ s' = { s with exits := s.exits - 1 }.setPlace t .gone) ∨
      (s.exits = 0 ∧ s' = s.setPlace t (if terminated then .gone else .waiting)) := by
    intro terminated hs
    have henter : s.enter t = s.setPlace t .woken := by
      rw [GrowableThreadPool.enter, h.actives, Finset.erase_empty, ← h.actives]
    rw [GrowableThreadPool.maybeShrink, if_pos (.inl h.initializing), henter] at hs
    exact tryRequestJob_woken h s.exited hs
  rw [GrowableThreadPool.requestJob] at hs
  split at hs
  next hp =>
    have hother : ∀ job, s.place t ≠ .running job true := by
      intro job hp'
      rw [hp] at hp'
      cases hp'
    refine .inl ⟨fun job hp' => absurd hp' (hother job), ?_⟩
    exact .of_request s.exited (by rw [hp]; rfl) (by rw [hp]; rfl) (hshrink hs)
  next job terminated hp =>
    cases terminated with
    | false =>
        have hother : ∀ job, s.place t ≠ .running job true := by
          intro job hp'
          rw [hp] at hp'
          cases hp'
        refine .inl ⟨fun job hp' => absurd hp' (hother job), ?_⟩
        exact .of_request s.exited (by rw [hp]; rfl) (by rw [hp]; rfl) (hshrink hs)
    | true =>
        rcases hshrink hs with ⟨hpos, heq⟩ | ⟨hzero, rfl⟩
        · exact .inr ⟨⟨job, hp⟩, hpos, heq⟩
        · exact .inl ⟨fun _ _ => hzero, .ends hp⟩
  next => cases hs

/-- A thread that is awake again. -/
theorem Shut.resume (h : Shut s) (hs : s.resume t who = some s') :
    Moves s t s' := by
  rw [GrowableThreadPool.resume] at hs
  split at hs
  next hp =>
    exact .of_request s.exited (by rw [hp]; rfl) (by rw [hp]; rfl)
      (tryRequestJob_shut h.sizeT_exits h.initializing h.pending hs)
  next reaped exits hp =>
    have hlt : reaped < exits := by
      have hdue := h.due t
      rw [hp] at hdue
      exact hdue
    rw [GrowableThreadPool.reap] at hs
    generalize hjoined : min (exits - reaped) s.exited.length = joined at hs
    by_cases hdone : reaped + joined = exits
    · rw [if_pos hdone] at hs
      have hleft : (s.exited.drop joined).length + (s.place t).owed =
          s.exited.length := by
        rw [hp, List.length_drop]
        show _ + (exits - reaped) = _
        omega
      exact .of_request _ (by rw [hp]; rfl) hleft (tryRequestJob_woken h _ hs)
    · rw [if_neg hdone] at hs
      obtain rfl := Option.some.inj hs
      have hall : joined = s.exited.length := by omega
      rw [hall, List.drop_length]
      exact .stalls hp (by omega)
  next => cases hs

/-- Nothing else happens while `Shutdown` joins. -/
theorem Shut.next_cases (h : Shut s) (hs : next s a = some s') :
    (¬Timely s a ∧ ∃ t, Steals s t s') ∨
    Timely s a ∧ ((∃ t, Moves s t s') ∨
      (∃ t, (s.place t).Blocked ∧ s' = s.wakeUp {t}) ∨ s.joined = some s') := by
  cases a with
  | initializeSize size =>
      have hs : s.initializeSize size = some s' := hs
      rw [GrowableThreadPool.initializeSize, if_pos (.inr (.inl h.initializing))] at hs
      cases hs
  | appendJob job who =>
      have hs : s.appendJob job who = some s' := hs
      rw [GrowableThreadPool.appendJob, if_pos h.initializing] at hs
      cases hs
  | appendJobThrows job made =>
      have hs : s.appendJobThrows job made = some s' := hs
      rw [GrowableThreadPool.appendJobThrows, if_pos h.initializing] at hs
      cases hs
  | requestJob t jobs who =>
      rcases h.requestJob hs with ⟨htimely, hmoves⟩ | hsteals
      · exact .inr ⟨htimely, .inl ⟨t, hmoves⟩⟩
      · refine .inl ⟨fun htimely => ?_, t, hsteals⟩
        obtain ⟨job, hp⟩ := hsteals.cancelled
        exact absurd (htimely job hp) (Nat.pos_iff_ne_zero.mp hsteals.pos)
  | resume t who => exact .inr ⟨trivial, .inl ⟨t, h.resume hs⟩⟩
  | stir t =>
      have hs : s.stir t = some s' := hs
      rw [GrowableThreadPool.stir] at hs
      obtain ⟨hblocked, ⟨⟩⟩ := Option.ite_none_right_eq_some.mp hs
      exact .inr ⟨trivial, .inr (.inl ⟨t, hblocked, rfl⟩)⟩
  | cancel t =>
      have hs : s.cancel t = some s' := hs
      rw [GrowableThreadPool.cancel] at hs
      split at hs
      next hp =>
        obtain rfl := Option.some.inj hs
        exact .inr ⟨trivial, .inl ⟨t, .ends hp⟩⟩
      next => cases hs
  | shutdown waitForJobsDone =>
      have hs : s.shutdown waitForJobsDone = some s' := hs
      rw [GrowableThreadPool.shutdown, if_pos (.inl h.initializing)] at hs
      cases hs
  | joined => exact .inr ⟨trivial, .inr (.inr hs)⟩

theorem Moves.live (h : Moves s t s') : (s.place t).live = 1 := by
  cases h with
  | exits _ _ hp _ => exact Place.live_of_pos (by omega)
  | waits _ _ hp _ => exact Place.live_of_pos (by omega)
  | stalls hp _ => rw [hp]; rfl
  | ends hp => rw [hp]; rfl

/-- **TWO DIFFERENCES STAY**: that of what those that reap are owed and what has
    exited, and that of the exits and those that are to take one. -/
theorem Moves.keeps (h : Shut s) (hm : Moves s t s') :
    Shut s' ∧
    s'.tally Place.owed + s.exited.length =
      s.tally Place.owed + s'.exited.length ∧
    s'.exits + (s.tally Place.idle + s.tally Place.serves) =
      s.exits + (s'.tally Place.idle + s'.tally Place.serves) := by
  have hlive := hm.live
  have ht := h.lt hlive
  cases hm with
  | exits exited hpos hp hxs =>
      have hmove := tally_move (q := .gone) (u := { s with
        exits := s.exits - 1, exited := exited }.setPlace t .gone) ht rfl rfl
      have hidle : _ = _ + 0 := hmove Place.idle
      have hserves : _ = _ + 0 := hmove Place.serves
      have howed : _ = _ + 0 := hmove Place.owed
      refine ⟨h.moved (q := .gone) hlive trivial (Nat.sub_le ..), ?_, ?_⟩
      · show _ = _ + exited.length
        omega
      · show s.exits - 1 + _ = _
        omega
  | waits exited hzero hp hxs =>
      have hmove := tally_move (q := .waiting) (u := { s with
        exited := exited }.setPlace t .waiting) ht rfl rfl
      have hidle : _ = _ + 1 := hmove Place.idle
      have hserves : _ = _ + 0 := hmove Place.serves
      have howed : _ = _ + 0 := hmove Place.owed
      refine ⟨h.moved (q := .waiting) hlive trivial (Nat.le_refl _), ?_, ?_⟩
      · show _ = _ + exited.length
        omega
      · show s.exits + _ = _
        omega
  | stalls hp hfew =>
      rename_i reaped exits
      have hmove := tally_move (q := .reaping (reaped + s.exited.length) exits true)
        (u := { s with exited := [] }.setPlace t
          (.reaping (reaped + s.exited.length) exits true)) ht rfl rfl
      rw [hp] at hmove
      have hidle : _ + 1 = _ + 1 := hmove Place.idle
      have hserves : _ + 0 = _ + 0 := hmove Place.serves
      have howed : _ + (exits - reaped) = _ + (exits - (reaped + s.exited.length)) :=
        hmove Place.owed
      refine ⟨h.moved (q := .reaping (reaped + s.exited.length) exits true)
        hlive ?_ (Nat.le_refl _), ?_, ?_⟩
      · show reaped + s.exited.length < exits
        omega
      · show _ = _ + 0
        omega
      · show s.exits + _ = _
        omega
  | ends hp =>
      have hmove := tally_move (q := .gone) (u := s.setPlace t .gone) ht rfl rfl
      rw [hp] at hmove
      have hidle : _ + 0 = _ + 0 := hmove Place.idle
      have hserves : _ + 0 = _ + 0 := hmove Place.serves
      have howed : _ + 0 = _ + 0 := hmove Place.owed
      refine ⟨h.moved (q := .gone) hlive trivial (Nat.le_refl _), ?_, ?_⟩
      · show _ = _ + s.exited.length
        omega
      · show s.exits + _ = _
        omega

-- ── A Shutdown that is in time ───────────────────────────────────────────────

/-- There is an exit for each that is to take one, those that reap are owed what
    has exited, and no thread is blocked. -/
structure Closing (s : GrowableThreadPool Job) : Prop where
  shut : Shut s
  awake : ∀ t, ¬ (s.place t).Blocked
  exits : s.exits = s.tally Place.idle + s.tally Place.serves
  owes : s.tally Place.owed = s.exited.length

theorem not_blocked_gone (h : ∀ t, ¬ (s.place t).Blocked) :
    ∀ u, ¬ (Function.update s.place t .gone u).Blocked := by
  intro u
  by_cases heq : u = t
  · rw [heq, Function.update_self]
    rintro (hw | hw)
    · cases hw
    · cases hw
  · rw [Function.update_of_ne heq]
    exact h u

theorem Closing.moves (h : Closing s) (hm : Moves s t s') : Closing s' := by
  obtain ⟨hshut', howes', hexits'⟩ := hm.keeps h.shut
  have ht := h.shut.lt hm.live
  obtain ⟨hshut, hawake, hexits, howes⟩ := h
  refine ⟨hshut', ?_, by omega, by omega⟩
  cases hm with
  | exits _ _ _ _ => exact not_blocked_gone hawake
  | ends _ => exact not_blocked_gone hawake
  | waits _ hzero hp _ =>
      -- there is an exit for each that comes for one
      have hidle : (s.place t).idle ≤ s.tally Place.idle := le_total ht
      have hserves : (s.place t).serves ≤ s.tally Place.serves := le_total ht
      omega
  | stalls hp hfew =>
      -- those that reap are owed no more than what has exited
      have howed : (s.place t).owed ≤ s.tally Place.owed := le_total ht
      rw [hp] at howed
      have howed : _ - _ ≤ s.tally Place.owed := howed
      omega

/-- `Shutdown` has joined its threads; nobody is left who does anything. -/
theorem Shut.joined (h : Shut s) (hs : s.joined = some s') :
    Sound s' ∧ s' = { s with joining := ∅, initializing := false } ∧
      ∀ w : Place Job → Nat, (∀ p, 0 < w p → p.live = 1) → s.tally w = 0 := by
  rw [GrowableThreadPool.joined] at hs
  obtain ⟨⟨-, hall⟩, ⟨⟩⟩ := Option.ite_none_right_eq_some.mp hs
  have hnone : ∀ t, (s.place t).live = 0 := by
    intro t
    by_cases hlive : (s.place t).live = 1
    · exact hall t (h.joining t hlive)
    · cases hp : s.place t with
      | absent => rfl
      | gone => rfl
      | _ =>
          rw [hp] at hlive
          exact absurd rfl hlive
  have hruns : ∀ t, (s.place t).runs ≠ 1 := by
    intro t hruns
    have hlive := Place.live_eq (s.place t)
    rw [hnone t] at hlive
    omega
  have hproper : ∀ t, (s.place t).proper := by
    intro t
    cases hp : s.place t with
    | absent => trivial
    | gone => trivial
    | _ =>
        have hlive := hnone t
        rw [hp] at hlive
        cases hlive
  have hroom : s.threads.card < 2 ^ 64 := by
    rw [h.threads]
    exact Nat.two_pow_pos 64
  refine ⟨⟨h.size_pos, rfl, h.fresh, fun t => ?_, fun t => ?_, hproper, hroom⟩, rfl,
    fun w hw => ?_⟩
  · show t ∈ s.threads ↔ (s.place t).live = 1
    rw [h.threads, hnone t]
    exact ⟨fun ht => absurd ht (Finset.notMem_empty t), fun ht => absurd ht (by decide)⟩
  · show t ∈ s.actives ↔ (s.place t).runs = 1
    rw [h.actives]
    exact ⟨fun ht => absurd ht (Finset.notMem_empty t), fun ht => absurd ht (hruns t)⟩
  · by_contra hne
    obtain ⟨t, -, hpos⟩ := exists_of_total_pos (Nat.pos_of_ne_zero hne)
    have hlive := hw _ hpos
    rw [hnone t] at hlive
    cases hlive

theorem Closing.joined (h : Closing s) (hs : s.joined = some s') : Good s' := by
  obtain ⟨hsound, rfl, hzero⟩ := h.shut.joined hs
  have hidle := hzero Place.idle fun p hp => Place.live_of_pos (.inr (.inl hp))
  have hserves := hzero Place.serves fun p hp => Place.live_of_pos (.inr (.inr hp))
  have howed := hzero Place.owed fun p hp => Place.live_of_pos (.inl hp)
  have hwaits := hzero Place.waits fun p hp => by
    cases p with
    | waiting => rfl
    | _ => cases hp
  have hlength : s.pendingJobs.length = 0 := by rw [h.shut.pending]; rfl
  have hsize := h.shut.size_pos
  have hexits := h.exits
  have howes := h.owes
  refine ⟨hsound, ⟨?_, ?_, ?_, ?_, ?_⟩, ?_⟩
  · show s.pendingJobs.length + s.exits ≤ s.tally Place.idle
    omega
  · show 0 < s.tally Place.waits → _
    omega
  · show s.tally Place.owed = s.exits + s.exited.length
    omega
  · show s.exited.length ≤ _
    omega
  · show 0 < s.exits → _
    omega
  · show s.tally Place.idle < s.pendingJobs.length + s.exits +
      (s.size + (s.size / 2 + s.size % 2))
    omega

/-- `_actives` has those that `Terminate` does anything to. -/
theorem Sound.terminate_of_notMem (h : Sound s) (ht : t ∉ s.actives) :
    GrowableThreadPool.terminate (s.place t) = s.place t := by
  rw [h.actives] at ht
  match hp : s.place t with
  | .running _ _ =>
      rw [hp] at ht
      exact absurd rfl ht
  | .absent | .starting | .waiting | .woken | .reaping _ _ _ | .gone => rfl

/-- Where the threads are when `Shutdown` begins to join. -/
theorem shutdown_place {w : Bool} (h : Sound s) (hs : s.shutdown w = some s')
    (u : Nat) : s'.place u = (s.place u).halt w := by
  rw [GrowableThreadPool.shutdown] at hs
  obtain ⟨-, ⟨⟩⟩ := Option.ite_none_left_eq_some.mp hs
  have hinner : (if (!w && decide (u ∈ s.actives)) = true
      then GrowableThreadPool.terminate (s.place u) else s.place u) =
      if w then s.place u else GrowableThreadPool.terminate (s.place u) := by
    cases w with
    | true => rfl
    | false =>
        by_cases hu : u ∈ s.actives
        · rw [decide_eq_true hu]
          rfl
        · rw [decide_eq_false hu, h.terminate_of_notMem hu]
          rfl
  show (if u ∈ s.jobWaiters then Place.wake (if _ then _ else _) else if _ then _ else _) = _
  rw [hinner]
  have hwaiter : u ∈ s.jobWaiters ↔ u < s.spawned ∧ (s.place u).waits = 1 :=
    GrowableThreadPool.mem_jobWaiters
  match hp : s.place u with
  | .waiting =>
      have ht : u < s.spawned := h.lt (by rw [hp]; exact nofun)
      rw [if_pos (hwaiter.mpr ⟨ht, by rw [hp]; rfl⟩)]
      cases w <;> rfl
  | .running job terminated =>
      obtain rfl := h.not_terminated hp
      rw [if_neg (fun hin => by have hw := (hwaiter.mp hin).2; rw [hp] at hw; cases hw)]
      cases w <;> rfl
  | .absent | .starting | .woken | .reaping _ _ _ | .gone =>
      rw [if_neg (fun hin => by have hw := (hwaiter.mp hin).2; rw [hp] at hw; cases hw)]
      cases w <;> rfl

/-- A thread that waits for exits is owed one, and does not tend to it. -/
theorem Sound.tended_lt (h : Sound s) (hstalls : (s.place t).stalls = 1) :
    s.tally Place.tended < s.tally Place.owed := by
  have ht : t < s.spawned := h.lt fun heq => by rw [heq] at hstalls; cases hstalls
  refine total_lt (fun u _ => ?_) ht ?_
  · match s.place u with
    | .reaping _ _ true => exact Nat.zero_le _
    | .reaping _ _ false => exact Nat.le_refl _
    | .absent | .starting | .running _ _ | .waiting | .woken | .gone =>
        exact Nat.le_refl _
  · obtain ⟨reaped, exits, hp⟩ := Place.stalls_eq_one hstalls
    have hlt := h.reaping_lt hp
    rw [hp]
    show 0 < exits - reaped
    omega

/-- What `Shutdown` counts. -/
theorem Sound.shutdown {w : Bool} (h : Sound s) (hs : s.shutdown w = some s') :
    Shut s' ∧ s'.exits = s'.tally Place.idle + s'.tally Place.serves ∧
      s'.tally Place.owed = s.tally Place.owed ∧ s'.exited = s.exited := by
  have hplace := shutdown_place h hs
  rw [GrowableThreadPool.shutdown] at hs
  obtain ⟨-, heq⟩ := Option.ite_none_left_eq_some.mp hs
  have heq := Option.some.inj heq
  have hspawned : s'.spawned = s.spawned := by rw [← heq]; rfl
  have hexits : s'.exits = if w then s.threads.card
      else sizeSub s.threads.card s.actives.card := by rw [← heq]; rfl
  have htally : ∀ v v' : Place Job → Nat, (∀ p, v (p.halt w) = v' p) →
      s'.tally v = s.tally v' := by
    intro v v' hv
    rw [GrowableThreadPool.tally, hspawned]
    refine total_congr fun t _ => ?_
    rw [hplace]
    exact hv _
  have hidle := htally Place.idle Place.idle fun p => Place.idle_halt p w
  have howed := htally Place.owed Place.owed fun p => Place.owed_halt p w
  have hserves := htally Place.serves (fun p => if w then p.runs else 0)
    fun p => Place.serves_halt p w
  have hcard := h.card_threads
  have hactives := h.card_actives
  have hroom := h.room
  refine ⟨?_, ?_, howed, by rw [← heq]; rfl⟩
  · have hjoining : s'.joining = s.threads := by rw [← heq]; rfl
    refine ⟨by rw [← heq]; exact h.size_pos, by rw [← heq]; rfl, ?_,
      by rw [← heq]; rfl, by rw [← heq]; rfl, by rw [← heq]; rfl, ?_, ?_, ?_⟩
    · intro t ht
      rw [hspawned] at ht
      rw [hplace, h.fresh t ht]
      rfl
    · intro t ht
      rw [hplace, Place.live_halt] at ht
      rw [hjoining]
      exact (h.threads t).mpr ht
    · intro t
      rw [hplace, Place.due_halt]
      exact .of_proper (h.proper t)
    · rw [hexits, sizeSub_of_le (b := s.actives.card) (by omega)]
      split <;> omega
  · rw [hexits, hidle, hserves]
    cases w with
    | true =>
        show s.threads.card = _ + s.tally Place.runs
        omega
    | false =>
        have hnone : s.tally (fun _ => 0) = 0 := by
          rw [GrowableThreadPool.tally, total, Finset.sum_const_zero]
        show sizeSub s.threads.card s.actives.card = _ + s.tally (fun _ => 0)
        rw [hnone, sizeSub_of_le (by omega)]
        omega

/-- Without exits that are yet to be taken no thread is blocked. -/
theorem Loose.shutdown {w : Bool} (h : Loose s) (hs : s.shutdown w = some s') :
    Shut s' ∧ s'.exits = s'.tally Place.idle + s'.tally Place.serves ∧
      s'.tally Place.owed = s.exits + s'.exited.length ∧
      (s.exits = 0 → ∀ t, ¬ (s'.place t).Blocked) := by
  obtain ⟨hshut, hexits, howed, hexited⟩ := h.sound.shutdown hs
  have howes := h.owes
  refine ⟨hshut, hexits, ?_, ?_⟩
  · rw [howed, hexited]
    exact howes
  · intro hzero t hblocked
    have htend := h.tended
    rw [shutdown_place h.sound hs] at hblocked
    have hstalls : (s.place t).stalls = 1 := by
      cases hp : s.place t with
      | reaping reaped exits blocked =>
          cases blocked with
          | true => rfl
          | false =>
              rw [hp] at hblocked
              rcases hblocked with hw | hw
              · cases hw
              · cases hw
      | _ =>
          rw [hp] at hblocked
          rcases hblocked with hw | hw
          · cases hw
          · cases hw
    have hlt := h.sound.tended_lt hstalls
    omega

/-- Nothing is outstanding when `Shutdown` begins. -/
theorem Loose.closing {w : Bool} (h : Loose s) (hzero : s.exits = 0)
    (hs : s.shutdown w = some s') : Closing s' := by
  obtain ⟨hshut, hexits, howes, hawake⟩ := h.shutdown hs
  exact ⟨hshut, hawake hzero, hexits, by omega⟩

theorem Closing.next_timely (h : Closing s) (htimely : Timely s a)
    (hs : next s a = some s') : Good s' ∨ Closing s' := by
  rcases h.shut.next_cases hs with
    ⟨huntimely, -⟩ | ⟨-, ⟨t, hmoves⟩ | ⟨t, hblocked, -⟩ | hjoined⟩
  · exact absurd htimely huntimely
  · exact .inr (h.moves hmoves)
  · exact absurd hblocked (h.awake t)
  · exact .inl (h.joined hjoined)

/-- A step that is in time. -/
theorem next_timely (h : Loose s ∨ Closing s) (htimely : Timely s a)
    (hs : next s a = some s') : Loose s' ∨ Closing s' := by
  rcases h with hloose | hclosing
  · cases a with
    | shutdown w => exact .inr (hloose.closing htimely hs)
    | _ =>
        refine .inl (hloose.next ?_ hs)
        trivial
  · exact (hclosing.next_timely htimely hs).imp_left Good.loose

/-- **IN TIME**: before `Shutdown` and behind it those that reap are owed what they
    have asked for. -/
theorem reachable_timely (h : Reachable ((pool Job).restrict Timely) s) :
    Loose s ∨ Closing s := by
  refine h.invariant (I := fun s => Loose s ∨ Closing s) (fun s h0 => ?_)
    fun s a s' _ hi hs => ?_
  · exact .inl (good_init h0).loose
  · exact next_timely hi hs.1 hs.2

-- ── A Shutdown that is not ───────────────────────────────────────────────────

/-- A thread that reaps is owed more than has exited, or there is no exit for
    some thread that is to take one. -/
structure Doomed (s : GrowableThreadPool Job) : Prop where
  shut : Shut s
  short : s.exited.length < s.tally Place.owed ∨
    s.exits < s.tally Place.idle + s.tally Place.serves

/-- Nothing makes up for it. -/
theorem Doomed.moves (h : Doomed s) (hm : Moves s t s') : Doomed s' := by
  obtain ⟨hshut', howes', hexits'⟩ := hm.keeps h.shut
  have hshort := h.short
  exact ⟨hshut', by omega⟩

/-- An exit is taken that was for another thread. -/
theorem Doomed.of_steals (hshut : Shut s) (hsteals : Steals s t s')
    (hshort : s.exited.length < s.tally Place.owed ∨
      s.exits ≤ s.tally Place.idle + s.tally Place.serves) : Doomed s' := by
  obtain ⟨⟨job, hp⟩, hpos, rfl⟩ := hsteals
  have hlive : (s.place t).live = 1 := by rw [hp]; rfl
  have hmove := tally_move (q := .gone)
    (u := { s with exits := s.exits - 1 }.setPlace t .gone) (hshut.lt hlive) rfl rfl
  rw [hp] at hmove
  have hidle' : _ + 0 = _ + 0 := hmove Place.idle
  have hserves' : _ + 0 = _ + 0 := hmove Place.serves
  have howed' : _ + 0 = _ + 0 := hmove Place.owed
  refine ⟨hshut.moved (q := .gone) hlive trivial (Nat.sub_le ..), ?_⟩
  show s.exited.length < _ ∨ s.exits - 1 < _
  omega

/-- Some thread is left. -/
theorem Doomed.live (h : Doomed s) : ∃ t < s.spawned, (s.place t).live = 1 := by
  obtain ⟨-, hshort⟩ := h
  have hpos : 0 < s.tally Place.owed ∨ 0 < s.tally Place.idle ∨
      0 < s.tally Place.serves := by omega
  rcases hpos with hpos | hpos | hpos
  · obtain ⟨t, ht, hpos⟩ := exists_of_total_pos hpos
    exact ⟨t, ht, Place.live_of_pos (.inl hpos)⟩
  · obtain ⟨t, ht, hpos⟩ := exists_of_total_pos hpos
    exact ⟨t, ht, Place.live_of_pos (.inr (.inl hpos))⟩
  · obtain ⟨t, ht, hpos⟩ := exists_of_total_pos hpos
    exact ⟨t, ht, Place.live_of_pos (.inr (.inr hpos))⟩

/-- `Shutdown` does not return. -/
theorem Doomed.joined (h : Doomed s) : s.joined = none := by
  rw [GrowableThreadPool.joined]
  refine if_neg fun hall => ?_
  obtain ⟨t, -, hlive⟩ := h.live
  have hdead := hall.2 t (h.shut.joining t hlive)
  rw [hlive] at hdead
  cases hdead

theorem Doomed.next (h : Doomed s) (hs : next s a = some s') : Doomed s' := by
  rcases h.shut.next_cases hs with
    ⟨-, t, hsteals⟩ | ⟨-, ⟨t, hmoves⟩ | ⟨t, -, rfl⟩ | hjoined⟩
  · exact .of_steals h.shut hsteals (h.short.imp_right Nat.le_of_lt)
  · exact h.moves hmoves
  · refine ⟨h.shut.wakeUp, ?_⟩
    have hserves : (s.wakeUp {t}).tally Place.serves = s.tally Place.serves :=
      total_rouse fun _ _ => Place.serves_wake _
    rw [tally_owed_wakeUp, tally_idle_wakeUp, hserves]
    exact h.short
  · rw [h.joined] at hjoined
    cases hjoined

/-- `Shutdown` joins a thread that waits, and all that are left do. -/
def Stuck (s : GrowableThreadPool Job) : Prop :=
  s.initializing = true ∧ (∃ t ∈ s.joining, (s.place t).Blocked) ∧
    ∀ t < s.spawned, (s.place t).live = 1 → (s.place t).Blocked

instance (s : GrowableThreadPool Job) : Decidable (Stuck s) :=
  inferInstanceAs (Decidable (_ ∧ _ ∧ _))

/-- Once no thread is awake, it is stuck. -/
theorem Doomed.stuck (h : Doomed s)
    (hquiet : ∀ t < s.spawned, (s.place t).live = 1 → (s.place t).Blocked) :
    Stuck s := by
  obtain ⟨t, ht, hlive⟩ := h.live
  exact ⟨h.shut.initializing, ⟨t, h.shut.joining t hlive, hquiet t ht hlive⟩, hquiet⟩

/-- A step that is not in time. -/
theorem doomed_of_untimely (h : Loose s ∨ Closing s) (huntimely : ¬Timely s a)
    (hs : next s a = some s') : Doomed s' := by
  rcases h with hloose | hclosing
  · cases a with
    | shutdown w =>
        obtain ⟨hshut, -, howes, -⟩ := hloose.shutdown hs
        have hne : s.exits ≠ 0 := huntimely
        exact ⟨hshut, .inl (by omega)⟩
    | requestJob t jobs who =>
        -- nothing is cancelled before `Shutdown`
        refine absurd (fun job hp => ?_) huntimely
        cases hloose.sound.not_terminated hp
    | _ => exact absurd trivial huntimely
  · rcases hclosing.shut.next_cases hs with ⟨-, t, hsteals⟩ | ⟨htimely, -⟩
    · exact .of_steals hclosing.shut hsteals (.inr (Nat.le_of_eq hclosing.exits))
    · exact absurd htimely huntimely

/-- Before `Shutdown` and behind it those that reap are owed what they have asked
    for; in between `Shutdown` goes on, or does not return. -/
theorem next_cases (h : (Loose s ∨ Closing s) ∨ Doomed s) (hs : next s a = some s') :
    (Loose s' ∨ Closing s') ∨ Doomed s' := by
  rcases h with hloose | hdoomed
  · by_cases htimely : Timely s a
    · exact .inl (next_timely hloose htimely hs)
    · exact .inr (doomed_of_untimely hloose htimely hs)
  · exact .inr (hdoomed.next hs)

theorem reachable_cases (h : Reachable (pool Job) s) :
    (Loose s ∨ Closing s) ∨ Doomed s := by
  refine h.invariant (I := fun s => (Loose s ∨ Closing s) ∨ Doomed s)
    (fun s h0 => .inl (.inl (good_init h0).loose)) fun s a s' _ hi hs => ?_
  exact next_cases hi hs

/-- `s` is followed by `s'`, or by a state that is. -/
def Follows (s s' : GrowableThreadPool Job) : Prop :=
  Relation.ReflTransGen (fun u v => ∃ a, next u a = some v) s s'

/-- **SHUTDOWN GOES ON IF IT IS IN TIME**: as long as each step is, no thread is
    blocked that `Shutdown` joins.  After one that is not, `Shutdown` does not
    return, and is stuck once no thread is awake. -/
theorem shutdown_in_time (h : Reachable ((pool Job).restrict Timely) s) :
    (s.initializing = true → ∀ t, ¬ (s.place t).Blocked) ∧ ¬Stuck s ∧
    ∀ a s', next s a = some s' → ¬Timely s a → ∀ s'', Follows s' s'' →
      s''.joined = none ∧
      ((∀ t < s''.spawned, (s''.place t).live = 1 → (s''.place t).Blocked) →
        Stuck s'') := by
  have hcases := reachable_timely h
  have hawake : s.initializing = true → ∀ t, ¬ (s.place t).Blocked := by
    intro hini
    rcases hcases with hloose | hclosing
    · rw [hloose.sound.is_open] at hini
      cases hini
    · exact hclosing.awake
  refine ⟨hawake, ?_, ?_⟩
  · rintro ⟨hini, ⟨t, -, hblocked⟩, -⟩
    exact hawake hini t hblocked
  · intro a s' hs huntimely s'' hfollows
    have hdoomed : Doomed s'' := by
      refine invariant_of_star (fun u v huv hu => ?_) hfollows
        (doomed_of_untimely hcases huntimely hs)
      obtain ⟨b, hb⟩ := huv
      exact hu.next hb
    exact ⟨hdoomed.joined, hdoomed.stuck⟩

/-- A run that does not come to `Shutdown` is in time. -/
theorem timely_of_open (h : Reachable ((pool Job).restrict Open) s) :
    Reachable ((pool Job).restrict Timely) s := by
  induction h with
  | start h0 => exact .start h0
  | next hr hs ih =>
      refine .next ih ⟨?_, hs.2⟩
      rename_i s s' a
      obtain ⟨hopen, -⟩ := hs
      cases a with
      | shutdown w => exact hopen.elim
      | appendJobThrows job made => exact hopen.elim
      | requestJob t jobs who =>
          intro job hp
          cases (reachable_good hr).sound.not_terminated hp
      | _ => trivial

namespace Pair

/-- `Shutdown` while the second thread runs its job. -/
def closing : GrowableThreadPool Nat :=
  (next working (.shutdown true)).get (by decide)

theorem reachable_closing : Reachable ((pool Nat).restrict Timely) closing := by
  have hzero : working.exits = 0 := by decide
  exact .next (l := .shutdown true) (timely_of_open reachable_working)
    ⟨hzero, (Option.some_get _).symm⟩

/-- `Shutdown` while the second thread waits for the exit of the first. -/
def cut : GrowableThreadPool Nat := (next shrunk (.shutdown true)).get (by decide)

/-- The first thread takes an exit, and the second one is not told. -/
def left : GrowableThreadPool Nat := (next cut (.resume 0 ∅)).get (by decide)

theorem next_cut : next shrunk (.shutdown true) = some cut :=
  (Option.some_get _).symm

theorem next_left : next cut (.resume 0 ∅) = some left :=
  (Option.some_get _).symm

end Pair

/-- Of two threads, one running and one waiting, and of two that shrink. -/
theorem shutdown_in_time_pair :
    (∀ t, ¬ (Pair.closing.place t).Blocked) ∧ Stuck Pair.left := by
  obtain ⟨hawake, -, -⟩ := shutdown_in_time Pair.reachable_closing
  obtain ⟨-, -, hdoomed⟩ := shutdown_in_time (timely_of_open Pair.reachable_shrunk)
  have huntimely : ¬Timely Pair.shrunk (.shutdown true) := by
    show ¬ Pair.shrunk.exits = 0
    decide
  have hleft := hdoomed _ _ Pair.next_cut huntimely Pair.left
    (.single ⟨_, Pair.next_left⟩)
  exact ⟨hawake (by decide), hleft.2 (by decide)⟩

/-- **SHUTDOWN WAITS FOR EVER** for the thread that began to shrink. -/
theorem shutdown_stuck : ¬∀ s, Reachable (pool Nat) s → ¬Stuck s := by
  intro hclaim
  have hshrunk := Pair.reachable_shrunk.of_restrict
  have hleft : Reachable (pool Nat) Pair.left :=
    .next (l := .resume 0 ∅) (.next (l := .shutdown true) hshrunk Pair.next_cut)
      Pair.next_left
  have hnot := hclaim _ hleft
  revert hnot
  decide

end FlinterGrowableThreadPool
