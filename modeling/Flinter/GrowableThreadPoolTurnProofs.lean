import Flinter.GrowableThreadPoolBalanceProofs

/-! # GrowableThreadPool: what those that reap are owed

    `MaybeShrink` asks for exits, and joins as many threads.  What the reaping
    threads have yet to join is what they have asked for and nobody has taken,
    and what has exited; and those of them that are awake have to join what has
    exited.  No number of the pool matters to that, so it holds until `Shutdown`
    also behind an `AppendJob` that throws. -/

namespace FlinterGrowableThreadPool

open Runs Tallies

variable {Job : Type} {s s' u : GrowableThreadPool Job} {t reaped exits : Nat}
variable {q : Place Job} {who jobs : Finset Nat} {a : Act Job} {n m : Nat}

/-- `MaybeShrink` shrinks the pool. -/
def shrinks (s : GrowableThreadPool Job) : Act Job → Bool
  | .requestJob t _ _ =>
      !s.initializing && decide ((s.enter t).threshold ≤ (s.enter t).idles)
  | _ => false

/-- The threads that `MaybeShrink` joins. -/
def reaps (s : GrowableThreadPool Job) (a : Act Job) : List Nat :=
  match a with
  | .requestJob t _ _ =>
      if shrinks s a then s.exited.take (s.enter t).shrinkBy else []
  | .resume t _ =>
      match s.place t with
      | .reaping reaped exits false => s.exited.take (exits - reaped)
      | _ => []
  | _ => []

/-- A step before `Shutdown`, in which `out` threads are joined and `more` are to
    exit: what those that reap are owed changes as the exits and the threads in
    `_exited` do, and what has exited is still for some that are awake. -/
structure Turn (s s' : GrowableThreadPool Job) (out more : Nat) : Prop where
  sound : Sound s'
  owed : s'.tally Place.owed + out = s.tally Place.owed + more
  exits : s'.exits + s'.exited.length + out = s.exits + s.exited.length + more
  tended : s.exits + s.exited.length ≤ s.tally Place.owed →
    s.exited.length ≤ s.tally Place.tended →
    s'.exited.length ≤ s'.tally Place.tended

theorem Turn.after (h : Turn u s' n 0)
    (howed : u.tally Place.owed = s.tally Place.owed + m)
    (htended : u.tally Place.tended = s.tally Place.tended + m)
    (hexits : u.exits = s.exits + m) (hexited : u.exited = s.exited) :
    Turn s s' n m := by
  obtain ⟨hsound', howed', hexits', htended'⟩ := h
  rw [hexited] at hexits' htended'
  exact ⟨hsound', by omega, by omega, fun _ _ => htended' (by omega) (by omega)⟩

/-- More threads are idle than the pool is large. -/
theorem shrinkBy_pos (hsize : 0 < s.size) (h : s.threshold ≤ s.idles) :
    0 < s.shrinkBy := by
  have hthreshold : s.threshold = s.size + (s.size / 2 + s.size % 2) := rfl
  have hmod := Nat.div_add_mod s.idles s.size
  have hlt : s.size < s.idles := by omega
  have hone : 1 ≤ s.idles / s.size := (Nat.one_le_div_iff hsize).mpr (Nat.le_of_lt hlt)
  rw [GrowableThreadPool.shrinkBy]
  split
  next hzero =>
    rw [hzero, Nat.add_zero] at hmod
    rw [Nat.mul_comm, hmod, sizeSub_of_le (Nat.le_of_lt hlt)]
    omega
  next => exact Nat.mul_pos hone hsize

/-- A thread moves, and neither place counts. -/
theorem tally_same {v : GrowableThreadPool Job} {w : Place Job → Nat}
    (ht : t < s.spawned) (hp : w (s.place t) = 0) (hq : w q = 0)
    (hspawned : v.spawned = s.spawned)
    (hplace : v.place = Function.update s.place t q) : v.tally w = s.tally w := by
  have hmove := tally_move ht hspawned hplace w
  omega

/-- A thread that reaps nothing does as much as one that is woken. -/
theorem Turn.of_same (hsound : Sound s') (howed : s'.tally Place.owed = s.tally Place.owed)
    (htended : s.tally Place.tended ≤ s'.tally Place.tended)
    (hexits : s'.exits = s.exits) (hexited : s'.exited = s.exited) :
    Turn s s' 0 0 := by
  refine ⟨hsound, howed, by rw [hexits, hexited], fun _ hle => ?_⟩
  rw [hexited]
  exact Nat.le_trans hle htended

theorem Sound.tryRequestJob (h : Sound s) (hp : s.place t = .woken)
    (hs : s.tryRequestJob t false who = some s') : Turn s s' 0 0 := by
  have ht : t < s.spawned := h.lt (by rw [hp]; simp)
  have hnone : (s.place t).owed = 0 := by rw [hp]; rfl
  have hnot : (s.place t).tended = 0 := by rw [hp]; rfl
  rw [GrowableThreadPool.tryRequestJob] at hs
  by_cases hpos : 0 < sizeT s.exits
  · have hpos' : 0 < s.exits := Nat.lt_of_lt_of_le hpos (Nat.mod_le ..)
    rw [if_pos hpos] at hs
    dsimp only at hs
    rw [if_neg (by show ¬ s.initializing = true; rw [h.is_open]; simp)] at hs
    obtain ⟨hwho, ⟨⟩⟩ := Option.ite_none_right_eq_some.mp hs
    have howed := tally_same (v := s.retire t) (q := .gone) (w := Place.owed) ht hnone
      rfl rfl rfl
    have hlength : (s.exited ++ [t]).length = s.exited.length + 1 := List.length_append
    refine ⟨(h.retire hp).wakeUp, ?_, ?_, fun howes htended => ?_⟩
    · exact (tally_owed_wakeUp (s.retire t) who).trans howed
    · show s.exits - 1 + (s.exited ++ [t]).length + 0 = _
      omega
    · show (s.exited ++ [t]).length ≤ _
      rw [hlength]
      exact h.retire_tended hp hpos' hwho howes htended
  · rw [if_neg hpos] at hs
    split at hs
    next job rest hpending =>
      obtain rfl := Option.some.inj hs
      exact .of_same (h.takes hp) (tally_same ht hnone rfl rfl rfl)
        (Eq.ge (tally_same ht hnot rfl rfl rfl)) rfl rfl
    next hpending =>
      obtain rfl := Option.some.inj hs
      rw [if_neg Bool.false_ne_true]
      exact .of_same (h.stays (q := .waiting) (by rw [hp]; rfl) rfl trivial)
        (tally_same ht hnone rfl rfl rfl)
        (Eq.ge (tally_same ht hnot rfl rfl rfl)) rfl rfl

theorem Sound.reap (h : Sound s) (hp : s.place t = .reaping reaped exits false)
    (hs : s.reap t reaped exits who = some s') :
    Turn s s' (s.exited.take (exits - reaped)).length 0 := by
  have hlt := h.reaping_lt hp
  have ht : t < s.spawned := h.lt (by rw [hp]; simp)
  have hidle : (s.place t).idle = 1 := by rw [hp]; rfl
  rw [GrowableThreadPool.reap] at hs
  rw [List.length_take]
  generalize hjoined : min (exits - reaped) s.exited.length = joined at hs
  have hleft : (s.exited.drop joined).length = s.exited.length - joined :=
    List.length_drop
  by_cases hdone : reaped + joined = exits
  · rw [if_pos hdone] at hs
    have hsound : Sound ({ s with exited := s.exited.drop joined }.setPlace t .woken) :=
      h.stays (q := .woken) hidle rfl trivial
    obtain ⟨hsound', howed', hexits', htended'⟩ :=
      hsound.tryRequestJob (t := t) (Function.update_self ..) hs
    have hmove := tally_move (q := .woken)
      (u := { s with exited := s.exited.drop joined }.setPlace t .woken) ht rfl rfl
    rw [hp] at hmove
    have howed : _ + (exits - reaped) = _ + 0 := hmove Place.owed
    have htend : _ + (exits - reaped) = _ + 0 := hmove Place.tended
    have howed' : s'.tally Place.owed + 0 =
      ({ s with exited := s.exited.drop joined }.setPlace t .woken).tally
        Place.owed + 0 := howed'
    have hexits' : s'.exits + s'.exited.length + 0 =
      s.exits + (s.exited.drop joined).length + 0 := hexits'
    have htended' : s.exits + (s.exited.drop joined).length ≤
        ({ s with exited := s.exited.drop joined }.setPlace t .woken).tally
          Place.owed →
        (s.exited.drop joined).length ≤
          ({ s with exited := s.exited.drop joined }.setPlace t .woken).tally
            Place.tended →
        s'.exited.length ≤ s'.tally Place.tended := htended'
    exact ⟨hsound', by omega, by omega, fun _ _ => htended' (by omega) (by omega)⟩
  · rw [if_neg hdone] at hs
    obtain rfl := Option.some.inj hs
    have howed := tally_move (q := .reaping (reaped + joined) exits true)
      (u := { s with exited := s.exited.drop joined }.setPlace t
        (.reaping (reaped + joined) exits true)) ht rfl rfl Place.owed
    rw [hp] at howed
    have howed : _ + (exits - reaped) = _ + (exits - (reaped + joined)) := howed
    refine ⟨h.stays (q := .reaping (reaped + joined) exits true) hidle rfl ?_, ?_, ?_,
      fun _ _ => ?_⟩
    · show reaped + joined < exits
      omega
    · omega
    · show s.exits + (s.exited.drop joined).length + joined = _
      omega
    · -- it waits, since nothing is left to join
      show (s.exited.drop joined).length ≤ _
      omega

theorem Sound.requestJob (h : Sound s) (hs : s.requestJob t jobs who = some s') :
    ∃ more, Turn s s' (reaps s (.requestJob t jobs who)).length more ∧
      (shrinks s (.requestJob t jobs who) = true ↔ 0 < more) := by
  have henter : (s.place t).live = 1 → (s.place t).owed = 0 →
      (s.place t).tended = 0 → (s.enter t).maybeShrink t false jobs who = some s' →
      ∃ more, Turn s s' (reaps s (.requestJob t jobs who)).length more ∧
        (shrinks s (.requestJob t jobs who) = true ↔ 0 < more) := by
    intro hlive hnone hnot hs
    have ht : t < s.spawned := h.lt fun heq => by rw [heq] at hlive; cases hlive
    have hsound := h.enter hlive
    have hplace : (s.enter t).place t = .woken := Function.update_self ..
    have howed : (s.enter t).tally Place.owed = s.tally Place.owed :=
      tally_same (q := .woken) ht hnone rfl rfl rfl
    have htended : (s.enter t).tally Place.tended = s.tally Place.tended :=
      tally_same (q := .woken) ht hnot rfl rfl rfl
    rw [GrowableThreadPool.maybeShrink] at hs
    by_cases hcalm : (s.enter t).initializing = true ∨
        (s.enter t).idles < (s.enter t).threshold
    · rw [if_pos hcalm] at hs
      have hlt : (s.enter t).idles < (s.enter t).threshold := by
        refine hcalm.resolve_left ?_
        show ¬ s.initializing = true
        rw [h.is_open]
        exact Bool.false_ne_true
      have hstays : ¬shrinks s (.requestJob t jobs who) = true := by
        simp [shrinks, hlt]
      have hreaps : reaps s (.requestJob t jobs who) = [] := if_neg hstays
      rw [hreaps]
      exact ⟨0, (hsound.tryRequestJob hplace hs).after howed htended rfl rfl,
        fun hdoes => absurd hdoes hstays, fun hlt => absurd hlt (Nat.lt_irrefl 0)⟩
    · rw [if_neg hcalm] at hs
      have hge := Nat.le_of_not_lt (not_or.mp hcalm).2
      have hdoes : shrinks s (.requestJob t jobs who) = true := by
        simp [shrinks, h.is_open, hge]
      have hreaps : reaps s (.requestJob t jobs who) =
          s.exited.take (s.enter t).shrinkBy := if_pos hdoes
      obtain ⟨hjobs, hs⟩ := Option.ite_none_right_eq_some.mp hs
      have hpos := shrinkBy_pos hsound.size_pos hge
      have hturn := (hsound.shrink hplace hjobs.1 hpos).reap (Function.update_self ..) hs
      have hp' := wakeUp_place_of_woken hplace hjobs.1
      have hmove := tally_move (s := (s.enter t).wakeUp jobs)
        (u := (s.enter t).shrink t jobs) ht rfl rfl
      rw [hp'] at hmove
      have howed' := hmove Place.owed
      have htended' := hmove Place.tended
      rw [tally_owed_wakeUp, howed] at howed'
      rw [(tally_wakeUp_jobs hjobs.1).2.2, htended] at htended'
      rw [hreaps]
      exact ⟨(s.enter t).shrinkBy, hturn.after howed' htended' rfl rfl, fun _ => hpos,
        fun _ => hdoes⟩
  rw [GrowableThreadPool.requestJob] at hs
  split at hs
  next hp => exact henter (by rw [hp]; rfl) (by rw [hp]; rfl) (by rw [hp]; rfl) hs
  next job terminated hp =>
    obtain rfl := h.not_terminated hp
    exact henter (by rw [hp]; rfl) (by rw [hp]; rfl) (by rw [hp]; rfl) hs
  next => cases hs

theorem Sound.resume (h : Sound s) (hs : s.resume t who = some s') :
    Turn s s' (reaps s (.resume t who)).length 0 := by
  rw [GrowableThreadPool.resume] at hs
  split at hs
  next hp =>
    have hreaps : reaps s (.resume t who) = [] := by rw [reaps, hp]
    rw [hreaps]
    exact h.tryRequestJob hp hs
  next reaped exits hp =>
    have hreaps : reaps s (.resume t who) = s.exited.take (exits - reaped) := by
      rw [reaps, hp]
    rw [hreaps]
    exact h.reap hp hs
  next => cases hs

/-- Threads are made, or none. -/
theorem Sound.spawn_turn {job : Job} {size : Nat} (h : Sound s)
    (hroom : ((s.push job).spawn size).threads.card < 2 ^ 64) :
    Turn s ((s.push job).spawn size) 0 0 := by
  refine .of_same (h.push.spawn hroom) ?_ ?_ rfl rfl
  · exact (tally_spawn (s := s.push job) size Place.owed).trans
      (congrArg (_ + ·) (Nat.mul_zero _))
  · rw [tally_spawn]
    exact Nat.le_add_right ..

theorem Sound.appendJob {job : Job} (h : Sound s)
    (hs : s.appendJob job who = some s') : Turn s s' 0 0 := by
  obtain ⟨u, hroom, hwho, rfl, hu⟩ := appendJob_cases hs
  have hturn : Turn s u 0 0 := by
    split at hu
    next =>
      subst hu
      exact h.spawn_turn hroom
    next =>
      subst hu
      exact .of_same h.push rfl (Nat.le_refl _) rfl rfl
  refine ⟨hturn.sound.wakeUp, ?_, hturn.exits, fun howes htended => ?_⟩
  · rw [tally_owed_wakeUp]
    exact hturn.owed
  · rw [(tally_wakeUp_jobs hwho.1).2.2]
    exact hturn.tended howes htended

theorem Sound.appendJobThrows {job : Job} {made : Nat} (h : Sound s)
    (hs : s.appendJobThrows job made = some s') : Turn s s' 0 0 := by
  obtain ⟨-, -, -, hroom, rfl⟩ := appendJobThrows_cases hs
  exact h.spawn_turn hroom

theorem Sound.stir (h : Sound s) (hs : s.stir t = some s') : Turn s s' 0 0 := by
  rw [GrowableThreadPool.stir] at hs
  obtain ⟨hblocked, ⟨⟩⟩ := Option.ite_none_right_eq_some.mp hs
  refine .of_same h.wakeUp (tally_owed_wakeUp s {t}) ?_ rfl rfl
  rcases hblocked with hwaits | hstalls
  · have ht : t < s.spawned := h.lt fun heq => by rw [heq] at hwaits; cases hwaits
    have hsub : {t} ⊆ s.jobWaiters := by
      rw [Finset.singleton_subset_iff, GrowableThreadPool.mem_jobWaiters]
      exact ⟨ht, hwaits⟩
    exact Nat.le_of_eq (tally_wakeUp_jobs hsub).2.2.symm
  · have ht : t < s.spawned := h.lt fun heq => by rw [heq] at hstalls; cases hstalls
    have hsub : {t} ⊆ s.exitWaiters := by
      rw [Finset.singleton_subset_iff, GrowableThreadPool.mem_exitWaiters]
      exact ⟨ht, hstalls⟩
    have htended := (tally_wakeUp_exits hsub h.proper).2.2
    omega

theorem Sound.initializeSize {size : Nat} (h : Sound s)
    (hs : s.initializeSize size = some s') :
    Turn s s' 0 0 ∧ s' = { s with size := size } := by
  rw [GrowableThreadPool.initializeSize] at hs
  obtain ⟨hcond, ⟨⟩⟩ := Option.ite_none_left_eq_some.mp hs
  have hsize : 0 < size := Nat.pos_of_ne_zero fun heq => hcond (.inl heq)
  have hsound : Sound { s with size := size } :=
    ⟨hsize, h.is_open, h.fresh, h.threads, h.actives, h.proper, h.room⟩
  exact ⟨.of_same hsound rfl (Nat.le_refl _) rfl rfl, rfl⟩

-- ── Until Shutdown ───────────────────────────────────────────────────────────

/-- What holds whether or not threads can be made. -/
structure Loose (s : GrowableThreadPool Job) : Prop where
  sound : Sound s
  owes : s.tally Place.owed = s.exits + s.exited.length
  tended : s.exited.length ≤ s.tally Place.tended

theorem Good.loose (h : Good s) : Loose s :=
  ⟨h.sound, h.balance.owes, h.balance.tended⟩

theorem Loose.turn (h : Loose s) (ht : Turn s s' n m) : Loose s' := by
  obtain ⟨hsound, howed, hexits, htended⟩ := ht
  have howes := h.owes
  exact ⟨hsound, by omega, htended (Nat.le_of_eq howes.symm) h.tended⟩

/-- **WHAT IS OWED IS ASKED FOR OR HAS EXITED**, until `Shutdown`. -/
theorem Loose.next (h : Loose s) (hearly : Early s a) (hs : next s a = some s') :
    Loose s' := by
  cases a with
  | initializeSize size => exact h.turn (h.sound.initializeSize hs).1
  | appendJob job who => exact h.turn (h.sound.appendJob hs)
  | appendJobThrows job made => exact h.turn (h.sound.appendJobThrows hs)
  | requestJob t jobs who =>
      obtain ⟨more, hturn, -⟩ := h.sound.requestJob hs
      exact h.turn hturn
  | resume t who => exact h.turn (h.sound.resume hs)
  | stir t => exact h.turn (h.sound.stir hs)
  | cancel t =>
      have hs : s.cancel t = some s' := hs
      rw [GrowableThreadPool.cancel] at hs
      split at hs
      next hp => cases h.sound.not_terminated hp
      next => cases hs
  | shutdown waitForJobsDone => exact hearly.elim
  | joined =>
      have hs : s.joined = some s' := hs
      rw [GrowableThreadPool.joined, h.sound.is_open] at hs
      obtain ⟨⟨hini, -⟩, -⟩ := Option.ite_none_right_eq_some.mp hs
      cases hini

end FlinterGrowableThreadPool
