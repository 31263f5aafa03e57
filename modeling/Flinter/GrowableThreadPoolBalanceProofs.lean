import Flinter.GrowableThreadPoolProofs

/-! # GrowableThreadPool: the balance until Shutdown

    What the code rests on is that `_actives`, the jobs and `_exits` are never
    more than `_threads`: else a difference of `size_t` would wrap.  It is so as
    long as threads can be made: an `AppendJob` that throws leaves its job without
    one.

    The argument for progress is a balance.  What the reaping threads still have
    to join is what is to exit and what has, and those that are awake have to
    join more than what has.  As long as an exit is outstanding no job is taken,
    so the thread that was idle beside the exits when they were asked for still
    is, or there is a job for it: the exits are fewer than the threads that do
    not run a job.  If all of these were blocked each would be reaping, and
    would have one to join at least, which is more exits than there are. -/

namespace FlinterGrowableThreadPool

open Runs Tallies

variable {Job : Type} {s s' : GrowableThreadPool Job} {t reaped exits : Nat}
variable {p q : Place Job} {who jobs : Finset Nat}

-- ── The balance ──────────────────────────────────────────────────────────────

/-- Jobs and exits are for those that are idle, and if some of these wait, as
    many are about to look for them.  Those that reap have to join what is to
    exit and what has, and those of them that are awake what has.  Some thread is
    idle beside the exits. -/
structure Balance (s : GrowableThreadPool Job) : Prop where
  account : s.pendingJobs.length + s.exits ≤ s.tally Place.idle
  covered : 0 < s.tally Place.waits →
    s.pendingJobs.length + s.exits ≤ s.tally Place.looks
  owes : s.tally Place.owed = s.exits + s.exited.length
  tended : s.exited.length ≤ s.tally Place.tended
  slack : 0 < s.exits → s.exits < s.tally Place.idle

/-- What holds between two steps: no thread has yet to shrink the pool. -/
structure Good (s : GrowableThreadPool Job) : Prop where
  sound : Sound s
  balance : Balance s
  calm : s.tally Place.idle <
    s.pendingJobs.length + s.exits + s.threshold

/-- No reaping thread is blocked. -/
theorem tended_of_no_stalls (hno : s.exitWaiters = ∅) :
    s.tally Place.tended = s.tally Place.owed := by
  refine total_congr fun t ht => ?_
  have hnot : t ∉ s.exitWaiters := by rw [hno]; exact Finset.notMem_empty t
  rw [GrowableThreadPool.mem_exitWaiters] at hnot
  match hp : s.place t with
  | .reaping _ _ true => exact absurd ⟨ht, by rw [hp]; rfl⟩ hnot
  | .reaping _ _ false => rfl
  | .absent | .starting | .running _ _ | .waiting | .woken | .gone => rfl

/-- A thread that takes an exit, before the wake-up. -/
def GrowableThreadPool.retire (s : GrowableThreadPool Job) (t : Nat) :
    GrowableThreadPool Job :=
  { s with
    exits := s.exits - 1
    exited := s.exited ++ [t]
    threads := s.threads.erase t
    place := Function.update s.place t .gone }

theorem Sound.retire (h : Sound s) (hp : s.place t = .woken) :
    Sound (s.retire t) := by
  have ht : t < s.spawned := h.lt (by rw [hp]; exact nofun)
  refine h.moved (p := .gone) ht trivial (Finset.erase_subset ..) (fun u => ?_)
    fun u => ?_
  · split
    next heq =>
      rw [heq]
      exact ⟨fun hm => absurd rfl (Finset.ne_of_mem_erase hm), nofun⟩
    next hne => exact ⟨Finset.mem_of_mem_erase, Finset.mem_erase_of_ne_of_mem hne⟩
  · split
    next heq =>
      rw [heq, h.actives, hp]
      exact ⟨nofun, nofun⟩
    next => exact Iff.rfl

/-- A thread that waits for exits is woken for one, if there is any; else those
    that reap are all awake. -/
theorem Sound.retire_tended (h : Sound s) (hp : s.place t = .woken)
    (hpos : 0 < s.exits) (hwho : Wakes (s.retire t).exitWaiters 1 who)
    (howes : s.exits + s.exited.length ≤ s.tally Place.owed)
    (htended : s.exited.length ≤ s.tally Place.tended) :
    s.exited.length + 1 ≤ ((s.retire t).wakeUp who).tally Place.tended := by
  obtain ⟨hsub, hcard⟩ := hwho
  obtain ⟨-, -, htended'⟩ := tally_wakeUp_exits hsub (h.retire hp).proper
  have ht : t < s.spawned := h.lt (by rw [hp]; exact nofun)
  obtain ⟨-, -, -, howed, htend⟩ :=
    shift (u := s.retire t) (q := .gone) ht hp rfl rfl
  dsimp only [Place.owed, Place.tended] at howed htend
  rcases Finset.eq_empty_or_nonempty (s.retire t).exitWaiters with hno | hsome
  · have hall := tended_of_no_stalls hno
    omega
  · have := hsome.card_pos
    omega

/-- A thread exits. -/
theorem Good.retire (h : Good s) (hp : s.place t = .woken) (hpos : 0 < s.exits)
    (hwho : Wakes (s.retire t).exitWaiters 1 who) :
    Good ((s.retire t).wakeUp who) := by
  have hsound := h.sound.retire hp
  have htend := h.sound.retire_tended hp hpos hwho (Nat.le_of_eq h.balance.owes.symm)
    h.balance.tended
  obtain ⟨hlooks', hwaits', -⟩ := tally_wakeUp_exits hwho.1 hsound.proper
  have hidle' := tally_idle_wakeUp (s.retire t) who
  have howed' := tally_owed_wakeUp (s.retire t) who
  have ht : t < s.spawned := h.sound.lt (by rw [hp]; exact nofun)
  obtain ⟨-, ⟨haccount, hcovered, howes, htended, hslack⟩, hcalm⟩ := h
  obtain ⟨hidle, hlooks, hwaits, howed, -⟩ :=
    shift (u := s.retire t) (q := .gone) ht hp rfl rfl
  dsimp only [Place.idle, Place.looks, Place.waits, Place.owed]
    at hidle hlooks hwaits howed
  have hexited : ((s.retire t).wakeUp who).exited.length = s.exited.length + 1 :=
    List.length_append
  have hexits : ((s.retire t).wakeUp who).exits = s.exits - 1 := rfl
  have hpending : ((s.retire t).wakeUp who).pendingJobs.length =
      s.pendingJobs.length := rfl
  have hthreshold : ((s.retire t).wakeUp who).threshold = s.threshold := rfl
  refine ⟨hsound.wakeUp, ⟨?_, ?_, ?_, ?_, ?_⟩, ?_⟩
  all_goals omega

/-- A thread takes a job. -/
theorem Sound.takes {job : Job} {rest : List Job} (h : Sound s)
    (hp : s.place t = .woken) :
    Sound ({ s with
      pendingJobs := rest
      actives := insert t s.actives }.setPlace t (.running job false)) := by
  have ht : t < s.spawned := h.lt (by rw [hp]; exact nofun)
  have hthread : t ∈ s.threads := by
    rw [h.threads, hp]
    rfl
  refine h.moved (p := .running job false) ht rfl (Finset.Subset.refl _)
    (fun u => ?_) fun u => ?_
  · split
    next heq => rw [heq]; exact ⟨fun _ => rfl, fun _ => hthread⟩
    next => exact Iff.rfl
  · rw [Finset.mem_insert]
    split
    next heq => exact ⟨fun _ => rfl, fun _ => .inl heq⟩
    next hne => exact ⟨fun hu => hu.resolve_left hne, .inr⟩

/-- `_exits` has not wrapped. -/
theorem Balance.sizeT_exits (h : Sound s) (hb : Balance s) :
    sizeT s.exits = s.exits := by
  have hcard := h.card_threads
  have hroom := h.room
  have haccount := hb.account
  exact Nat.mod_eq_of_lt (by omega)

/-- A thread takes a job, or waits for one. -/
theorem Good.tryRequestJob (h : Good s) (hp : s.place t = .woken)
    (hs : s.tryRequestJob t false who = some s') : Good s' := by
  have ht : t < s.spawned := h.sound.lt (by rw [hp]; exact nofun)
  rw [GrowableThreadPool.tryRequestJob, h.balance.sizeT_exits h.sound] at hs
  by_cases hpos : 0 < s.exits
  · rw [if_pos hpos] at hs
    dsimp only at hs
    rw [if_neg (by show ¬ s.initializing = true; rw [h.sound.is_open]; exact nofun)]
      at hs
    obtain ⟨hwho, ⟨⟩⟩ := Option.ite_none_right_eq_some.mp hs
    exact h.retire hp hpos hwho
  · rw [if_neg hpos] at hs
    obtain ⟨hsound, ⟨haccount, hcovered, howes, htended, hslack⟩, hcalm⟩ := h
    split at hs
    next job rest hpending =>
      obtain rfl := Option.some.inj hs
      obtain ⟨hidle, hlooks, hwaits, howed, htend⟩ :=
        shift (u := { s with
          pendingJobs := rest
          actives := insert t s.actives }.setPlace t (.running job false))
          ht hp rfl rfl
      dsimp only [Place.idle, Place.looks, Place.waits, Place.owed, Place.tended]
        at hidle hlooks hwaits howed htend
      rw [hpending, List.length_cons] at haccount hcovered hcalm
      refine ⟨hsound.takes hp, ⟨?_, ?_, ?_, ?_, ?_⟩, ?_⟩
      · show rest.length + s.exits ≤ _
        omega
      · show _ → rest.length + s.exits ≤ _
        omega
      · show _ = s.exits + s.exited.length
        omega
      · show s.exited.length ≤ _
        omega
      · show 0 < s.exits → s.exits < _
        omega
      · show _ < rest.length + s.exits + s.threshold
        omega
    next hpending =>
      obtain rfl := Option.some.inj hs
      rw [if_neg nofun]
      obtain ⟨hidle, hlooks, hwaits, howed, htend⟩ :=
        shift (u := s.setPlace t .waiting) ht hp rfl rfl
      dsimp only [Place.idle, Place.looks, Place.waits, Place.owed, Place.tended]
        at hidle hlooks hwaits howed htend
      rw [hpending, List.length_nil] at haccount hcovered hcalm
      have hlength : (s.setPlace t .waiting).pendingJobs.length = 0 := by
        show s.pendingJobs.length = 0
        rw [hpending, List.length_nil]
      refine ⟨?_, ⟨?_, ?_, ?_, ?_, ?_⟩, ?_⟩
      · exact hsound.stays (q := .waiting) (by rw [hp]; rfl) rfl trivial
      · rw [hlength]
        show 0 + s.exits ≤ _
        omega
      · rw [hlength]
        show _ → 0 + s.exits ≤ _
        omega
      · show _ = s.exits + s.exited.length
        omega
      · show s.exited.length ≤ _
        omega
      · show 0 < s.exits → s.exits < _
        omega
      · rw [hlength]
        show _ < 0 + s.exits + s.threshold
        omega

/-- A thread that reaps goes on; `exited` are left. -/
theorem Good.stays (h : Good s) (hp : s.place t = p) (hpi : p.idle = 1)
    (hqi : q.idle = 1) (hproper : q.proper) {exited : List Nat}
    (hlooks : p.looks ≤ q.looks) (hwaits : p.waits = q.waits)
    (howed : p.owed + exited.length = q.owed + s.exited.length)
    (htended : exited.length = 0 ∨
      exited.length + p.tended ≤ s.exited.length + q.tended) :
    Good ({ s with exited := exited }.setPlace t q) := by
  have ht : t < s.spawned := h.sound.lt fun heq => by
    rw [← hp, heq] at hpi
    cases hpi
  obtain ⟨hidle', hlooks', hwaits', howed', htended'⟩ :=
    shift (u := { s with exited := exited }.setPlace t q) ht hp rfl rfl
  obtain ⟨hsound, ⟨haccount, hcovered, howes, htend, hslack⟩, hcalm⟩ := h
  refine ⟨hsound.stays (by rw [hp]; exact hpi) hqi hproper,
    ⟨?_, ?_, ?_, ?_, ?_⟩, ?_⟩
  · show s.pendingJobs.length + s.exits ≤ _
    omega
  · show _ → s.pendingJobs.length + s.exits ≤ _
    omega
  · show _ = s.exits + exited.length
    omega
  · show exited.length ≤ _
    omega
  · show 0 < s.exits → s.exits < _
    omega
  · show _ < s.pendingJobs.length + s.exits + s.threshold
    omega

/-- A thread that reaps has joined all that it was to join. -/
theorem Good.done_reaping {joined : Nat} (h : Good s)
    (hp : s.place t = .reaping reaped exits false)
    (hdone : reaped + joined = exits) (hle : joined ≤ s.exited.length) :
    Good ({ s with exited := s.exited.drop joined }.setPlace t .woken) := by
  have hleft : (s.exited.drop joined).length = s.exited.length - joined :=
    List.length_drop
  refine h.stays (q := .woken) hp rfl rfl trivial (Nat.zero_le _) rfl ?_ (.inr ?_)
  · show exits - reaped + _ = 0 + _
    omega
  · show _ + (exits - reaped) ≤ _ + 0
    omega

/-- A thread joins what has exited, and is done, or waits and has joined all. -/
theorem Good.reap (h : Good s) (hp : s.place t = .reaping reaped exits false)
    (hs : s.reap t reaped exits who = some s') : Good s' := by
  have hlt := h.sound.reaping_lt hp
  rw [GrowableThreadPool.reap] at hs
  generalize hjoined : min (exits - reaped) s.exited.length = joined at hs
  by_cases hdone : reaped + joined = exits
  · rw [if_pos hdone] at hs
    exact (h.done_reaping hp hdone (by omega)).tryRequestJob (Function.update_self ..) hs
  · rw [if_neg hdone] at hs
    obtain rfl := Option.some.inj hs
    have hleft : (s.exited.drop joined).length = s.exited.length - joined :=
      List.length_drop
    refine h.stays (q := .reaping (reaped + joined) exits true) hp rfl rfl ?_
      (Nat.le_refl _) rfl ?_ (.inl ?_)
    · show reaped + joined < exits
      omega
    · show exits - reaped + _ = exits - (reaped + joined) + _
      omega
    · omega

-- ── Steps of threads ─────────────────────────────────────────────────────────

theorem sizeSub_of_le {a b : Nat} (h : b ≤ a) : sizeSub a b = a - b := if_pos h

/-- None of the subtractions wraps. -/
theorem idles_eq (h : Sound s) (hb : Balance s) :
    s.idles = s.tally Place.idle - s.pendingJobs.length - s.exits := by
  have hcard := h.card_threads
  have haccount := hb.account
  rw [GrowableThreadPool.idles, hb.sizeT_exits h,
    sizeSub_of_le (b := s.actives.card) (by omega),
    sizeSub_of_le (b := s.pendingJobs.length) (by omega), sizeSub_of_le (by omega)]
  omega

/-- A pool with as many idle threads as it tolerates is shrunk by `_size`. -/
theorem shrinkBy_eq (hsize : 0 < s.size) (h : s.idles = s.threshold) :
    s.shrinkBy = s.size ∧ s.size < s.idles := by
  have hthreshold : s.threshold = s.size + (s.size / 2 + s.size % 2) := rfl
  rw [GrowableThreadPool.shrinkBy]
  refine ⟨?_, by omega⟩
  by_cases hone : s.size = 1
  · rw [h, hthreshold, hone]
    rfl
  · have hdiv : s.idles / s.size = 1 := by
      rw [h, Nat.div_eq_iff hsize]
      omega
    have hmod : s.idles % s.size ≠ 0 := by
      have := Nat.div_add_mod s.idles s.size
      rw [hdiv] at this
      omega
    rw [if_neg hmod, hdiv, Nat.one_mul]

theorem Good.idles_lt (h : Good s) : s.idles < s.threshold := by
  have haccount := h.balance.account
  have hcalm := h.calm
  rw [idles_eq h.sound h.balance]
  omega

/-- A thread that is done with its job was the last that the pool tolerates. -/
structure Full (s : GrowableThreadPool Job) : Prop where
  sound : Sound s
  balance : Balance s
  full : s.tally Place.idle = s.pendingJobs.length + s.exits + s.threshold
  spare : 0 < s.tally Place.waits →
    s.pendingJobs.length + s.exits < s.tally Place.looks

theorem Full.idles_eq (h : Full s) : s.idles = s.threshold := by
  have haccount := h.balance.account
  have hfull := h.full
  rw [FlinterGrowableThreadPool.idles_eq h.sound h.balance]
  omega

theorem Sound.enter (h : Sound s) (hlive : (s.place t).live = 1) :
    Sound (s.enter t) := by
  have ht : t < s.spawned := h.lt fun heq => by rw [heq] at hlive; cases hlive
  refine h.moved (p := .woken) ht trivial (Finset.Subset.refl _) (fun u => ?_)
    fun u => ?_
  · split
    next heq =>
      rw [heq, h.threads]
      exact ⟨fun _ => rfl, fun _ => hlive⟩
    next => exact Iff.rfl
  · split
    next heq =>
      rw [heq]
      exact ⟨fun hu => absurd rfl (Finset.ne_of_mem_erase hu), nofun⟩
    next hne => exact ⟨Finset.mem_of_mem_erase, Finset.mem_erase_of_ne_of_mem hne⟩

/-- A new thread is among the idle ones. -/
theorem Good.enter_starting (h : Good s) (hp : s.place t = .starting) :
    Good (s.enter t) := by
  have hactive : t ∉ s.actives := by
    rw [h.sound.actives, hp]
    intro heq
    cases heq
  have henter : s.enter t = s.setPlace t .woken := by
    rw [GrowableThreadPool.enter, Finset.erase_eq_of_notMem hactive]
  rw [henter]
  exact h.stays (q := .woken) hp rfl rfl trivial (Nat.le_refl _) rfl rfl
    (.inr (Nat.le_refl _))

/-- A thread that is done with its job is idle from then on. -/
theorem Good.enter_running {job : Job} {terminated : Bool} (h : Good s)
    (hp : s.place t = .running job terminated) :
    Good (s.enter t) ∨ Full (s.enter t) := by
  have ht : t < s.spawned := h.sound.lt (by rw [hp]; exact nofun)
  obtain ⟨hidle, hlooks, hwaits, howed, htend⟩ :=
    shift (u := s.enter t) ht hp rfl rfl
  dsimp only [Place.idle, Place.looks, Place.waits, Place.owed, Place.tended]
    at hidle hlooks hwaits howed htend
  obtain ⟨hsound, ⟨haccount, hcovered, howes, htended, hslack⟩, hcalm⟩ := h
  have hsound' : Sound (s.enter t) := hsound.enter (by rw [hp]; rfl)
  have hbalance : Balance (s.enter t) := by
    refine ⟨?_, ?_, ?_, ?_, ?_⟩
    · show s.pendingJobs.length + s.exits ≤ _
      omega
    · show _ → s.pendingJobs.length + s.exits ≤ _
      omega
    · show _ = s.exits + s.exited.length
      omega
    · show s.exited.length ≤ _
      omega
    · show 0 < s.exits → s.exits < _
      omega
  rcases Nat.lt_or_ge ((s.enter t).tally Place.idle)
    (s.pendingJobs.length + s.exits + s.threshold) with hlt | hge
  · exact .inl ⟨hsound', hbalance, hlt⟩
  · refine .inr ⟨hsound', hbalance, ?_, ?_⟩
    · show _ = s.pendingJobs.length + s.exits + s.threshold
      omega
    · show _ → s.pendingJobs.length + s.exits < _
      omega

/-- A thread that shrinks the pool is not one of those that it wakes. -/
theorem wakeUp_place_of_woken (hp : s.place t = .woken)
    (hsub : jobs ⊆ s.jobWaiters) : (s.wakeUp jobs).place t = .woken := by
  have hnot : t ∉ jobs := by
    intro hin
    have hw := (GrowableThreadPool.mem_jobWaiters.mp (hsub hin)).2
    rw [hp] at hw
    cases hw
  show (if t ∈ jobs then _ else _) = _
  rw [if_neg hnot, hp]

theorem Sound.shrink (h : Sound s) (hp : s.place t = .woken)
    (hsub : jobs ⊆ s.jobWaiters) (hpos : 0 < s.shrinkBy) :
    Sound (s.shrink t jobs) := by
  have hp' := wakeUp_place_of_woken hp hsub
  exact h.wakeUp.stays (q := .reaping 0 s.shrinkBy false) (by rw [hp']; rfl) rfl hpos

/-- The pool is shrunk.  `_size` wake-ups are enough: there is one for each of
    the exits, or none is left that waits. -/
theorem Full.shrink (h : Full s) (hp : s.place t = .woken)
    (hjobs : Wakes s.jobWaiters s.size jobs) : Good (s.shrink t jobs) := by
  have hsize := h.sound.size_pos
  obtain ⟨hby, hlt⟩ := shrinkBy_eq hsize h.idles_eq
  obtain ⟨hsub, hcard⟩ := hjobs
  rw [GrowableThreadPool.card_jobWaiters] at hcard
  obtain ⟨hlooks', hwaits', htended'⟩ := tally_wakeUp_jobs hsub
  have hidle' := tally_idle_wakeUp s jobs
  have howed' := tally_owed_wakeUp s jobs
  have ht : t < s.spawned := h.sound.lt (by rw [hp]; exact nofun)
  have hp' := wakeUp_place_of_woken hp hsub
  obtain ⟨hidle, hlooks, hwaits, howed, htend⟩ :=
    shift (s := s.wakeUp jobs) (u := s.shrink t jobs) ht hp' rfl rfl
  dsimp only [Place.idle, Place.looks, Place.waits, Place.owed, Place.tended]
    at hidle hlooks hwaits howed htend
  have hsound' : Sound (s.shrink t jobs) :=
    h.sound.shrink hp hsub (by rw [hby]; exact hsize)
  have hthreshold : s.threshold = s.size + (s.size / 2 + s.size % 2) := rfl
  rw [hby] at howed htend
  have hexits : (s.shrink t jobs).exits = s.exits + s.size := by
    show s.exits + s.shrinkBy = _
    rw [hby]
  obtain ⟨hsound, ⟨haccount, hcovered, howes, htended, hslack⟩, hfull, hspare⟩ := h
  refine ⟨hsound', ⟨?_, ?_, ?_, ?_, ?_⟩, ?_⟩
  · rw [hexits]
    show s.pendingJobs.length + _ ≤ _
    omega
  · rw [hexits]
    show _ → s.pendingJobs.length + _ ≤ _
    omega
  · rw [hexits]
    show _ = _ + s.exited.length
    omega
  · show s.exited.length ≤ _
    omega
  · rw [hexits]
    omega
  · rw [hexits]
    show _ < s.pendingJobs.length + _ + s.threshold
    omega

theorem Good.requestJob (h : Good s)
    (hs : s.requestJob t jobs who = some s') : Good s' := by
  have hplace : (s.enter t).place t = .woken := Function.update_self ..
  have hopen : ¬ (s.enter t).initializing = true := by
    show ¬ s.initializing = true
    rw [h.sound.is_open]
    exact nofun
  have hcalm : ∀ {s₁ : GrowableThreadPool Job}, Good (s.enter t) →
      (s.enter t).maybeShrink t false jobs who = some s₁ → Good s₁ := by
    intro s₁ hgood hs
    rw [GrowableThreadPool.maybeShrink, if_pos (.inr hgood.idles_lt)] at hs
    exact hgood.tryRequestJob hplace hs
  rw [GrowableThreadPool.requestJob] at hs
  split at hs
  next hp => exact hcalm (h.enter_starting hp) hs
  next job terminated hp =>
    obtain rfl := h.sound.not_terminated hp
    rcases h.enter_running hp with hgood | hfull
    · exact hcalm hgood hs
    · rw [GrowableThreadPool.maybeShrink, if_neg (not_or.mpr
        ⟨hopen, by rw [hfull.idles_eq]; exact Nat.lt_irrefl _⟩)] at hs
      obtain ⟨hjobs, hs⟩ := Option.ite_none_right_eq_some.mp hs
      exact (hfull.shrink hplace hjobs).reap (Function.update_self ..) hs
  next => cases hs

theorem Good.resume (h : Good s) (hs : s.resume t who = some s') : Good s' := by
  rw [GrowableThreadPool.resume] at hs
  split at hs
  next hp => exact h.tryRequestJob hp hs
  next hp => exact h.reap hp hs
  next => cases hs

/-- Threads that wait for jobs are woken, one of them at least for each job or
    exit that is one too many for those that look. -/
theorem Good.of_wakeUp (hsound : Sound s)
    (haccount : s.pendingJobs.length + s.exits ≤ s.tally Place.idle)
    (hcovered : who.card < s.tally Place.waits →
      s.pendingJobs.length + s.exits ≤ s.tally Place.looks + who.card)
    (howes : s.tally Place.owed = s.exits + s.exited.length)
    (htended : s.exited.length ≤ s.tally Place.tended)
    (hslack : 0 < s.exits → s.exits < s.tally Place.idle)
    (hcalm : s.tally Place.idle < s.pendingJobs.length + s.exits + s.threshold)
    (hwho : who ⊆ s.jobWaiters) : Good (s.wakeUp who) := by
  obtain ⟨hlooks', hwaits', htended'⟩ := tally_wakeUp_jobs hwho
  refine ⟨hsound.wakeUp, ⟨?_, ?_, ?_, ?_, ?_⟩, ?_⟩
  · rw [tally_idle_wakeUp]
    exact haccount
  · show _ → s.pendingJobs.length + s.exits ≤ _
    omega
  · rw [tally_owed_wakeUp]
    exact howes
  · show s.exited.length ≤ _
    omega
  · rw [tally_idle_wakeUp]
    exact hslack
  · rw [tally_idle_wakeUp]
    exact hcalm

theorem Good.stir (h : Good s) (hs : s.stir t = some s') : Good s' := by
  rw [GrowableThreadPool.stir] at hs
  obtain ⟨hblocked, ⟨⟩⟩ := Option.ite_none_right_eq_some.mp hs
  obtain ⟨hsound, ⟨haccount, hcovered, howes, htended, hslack⟩, hcalm⟩ := h
  have hone : ({t} : Finset Nat).card = 1 := Finset.card_singleton t
  rcases hblocked with hwaits | hstalls
  · have ht : t < s.spawned := hsound.lt fun heq => by rw [heq] at hwaits; cases hwaits
    refine Good.of_wakeUp hsound haccount (by omega) howes htended hslack hcalm ?_
    rw [Finset.singleton_subset_iff, GrowableThreadPool.mem_jobWaiters]
    exact ⟨ht, hwaits⟩
  · have ht : t < s.spawned := hsound.lt fun heq => by rw [heq] at hstalls; cases hstalls
    have hsub : {t} ⊆ s.exitWaiters := by
      rw [Finset.singleton_subset_iff, GrowableThreadPool.mem_exitWaiters]
      exact ⟨ht, hstalls⟩
    obtain ⟨hlooks', hwaits', htended'⟩ := tally_wakeUp_exits hsub hsound.proper
    refine ⟨hsound.wakeUp, ⟨?_, ?_, ?_, ?_, ?_⟩, ?_⟩
    · rw [tally_idle_wakeUp]
      exact haccount
    · rw [hlooks', hwaits']
      exact hcovered
    · rw [tally_owed_wakeUp]
      exact howes
    · show s.exited.length ≤ _
      omega
    · rw [tally_idle_wakeUp]
      exact hslack
    · rw [tally_idle_wakeUp]
      exact hcalm

-- ── Steps of the pool ────────────────────────────────────────────────────────

/-- Threads are made. -/
theorem Sound.spawn {size : Nat} (h : Sound s)
    (hroom : (s.spawn size).threads.card < 2 ^ 64) : Sound (s.spawn size) := by
  have hold : ∀ u, ¬ (s.spawned ≤ u ∧ u < s.spawned + size) →
      (s.spawn size).place u = s.place u := fun u hu => if_neg hu
  have hnew : ∀ u, s.spawned ≤ u ∧ u < s.spawned + size →
      (s.spawn size).place u = .starting := fun u hu => if_pos hu
  refine ⟨h.size_pos, h.is_open, ?_, ?_, ?_, ?_, hroom⟩
  · intro u hu
    have hge : s.spawned + size ≤ u := hu
    rw [hold u (by omega)]
    exact h.fresh u (by omega)
  · intro u
    show u ∈ s.threads ∪ Finset.Ico s.spawned (s.spawned + size) ↔ _
    rw [Finset.mem_union, Finset.mem_Ico]
    by_cases hu : s.spawned ≤ u ∧ u < s.spawned + size
    · rw [hnew u hu]
      exact ⟨fun _ => rfl, fun _ => .inr hu⟩
    · rw [hold u hu, ← h.threads]
      exact ⟨fun hin => hin.resolve_right hu, .inl⟩
  · intro u
    show u ∈ s.actives ↔ _
    rw [h.actives]
    by_cases hu : s.spawned ≤ u ∧ u < s.spawned + size
    · rw [hnew u hu, h.fresh u hu.1]
      exact ⟨nofun, nofun⟩
    · rw [hold u hu]
  · intro u
    by_cases hu : s.spawned ≤ u ∧ u < s.spawned + size
    · rw [hnew u hu]
      trivial
    · rw [hold u hu]
      exact h.proper u

/-- Each new thread counts. -/
theorem tally_spawn (size : Nat) (w : Place Job → Nat) :
    (s.spawn size).tally w = s.tally w + size * w .starting := by
  have hgrow : total w (s.spawned + size) (s.spawn size).place =
      total w s.spawned (s.spawn size).place + size * w .starting :=
    total_grow fun t hge hlt => if_pos ⟨hge, hlt⟩
  have hold : total w s.spawned (s.spawn size).place = total w s.spawned s.place :=
    total_congr fun t ht => congrArg w (if_neg (by omega))
  rw [GrowableThreadPool.tally, GrowableThreadPool.tally, ← hold]
  exact hgrow

theorem Sound.push {job : Job} (h : Sound s) : Sound (s.push job) :=
  ⟨h.size_pos, h.is_open, h.fresh, h.threads, h.actives, h.proper, h.room⟩

/-- What `AppendJob` does before its wake-up. -/
theorem appendJob_cases {job : Job} (hs : s.appendJob job who = some s') :
    ∃ u, u.threads.card < 2 ^ 64 ∧ Wakes u.jobWaiters 1 who ∧ s' = u.wakeUp who ∧
      u = if (s.push job).short then (s.push job).spawn s.size else s.push job := by
  rw [GrowableThreadPool.appendJob] at hs
  split at hs
  next => cases hs
  next =>
    obtain ⟨⟨hroom, hwho⟩, heq⟩ := Option.ite_none_right_eq_some.mp hs
    exact ⟨_, hroom, hwho, (Option.some.inj heq).symm, rfl⟩

/-- What it does if it throws. -/
theorem appendJobThrows_cases {job : Job} {made : Nat}
    (hs : s.appendJobThrows job made = some s') :
    s.initializing = false ∧ (s.push job).short ∧ made < s.size ∧
      s'.threads.card < 2 ^ 64 ∧ s' = (s.push job).spawn made := by
  rw [GrowableThreadPool.appendJobThrows] at hs
  split at hs
  next => cases hs
  next hopen =>
    obtain ⟨⟨hshort, hmade, hroom⟩, heq⟩ := Option.ite_none_right_eq_some.mp hs
    obtain rfl := Option.some.inj heq
    exact ⟨Bool.eq_false_iff.mpr hopen, hshort, hmade, hroom, rfl⟩

/-- Threads are made if there is no idle one beside the jobs and the exits. -/
theorem Good.appendJob {job : Job} (h : Good s)
    (hs : s.appendJob job who = some s') : Good s' := by
  have hcard := h.sound.card_threads
  obtain ⟨u, hroom, ⟨hsub, hmin⟩, rfl, hu⟩ := appendJob_cases hs
  have hexits := h.balance.sizeT_exits h.sound
  obtain ⟨hsound, ⟨haccount, hcovered, howes, htended, hslack⟩, hcalm⟩ := h
  have hsize := hsound.size_pos
  have hthreshold : s.threshold = s.size + (s.size / 2 + s.size % 2) := rfl
  have hlength : (s.push job).pendingJobs.length = s.pendingJobs.length + 1 :=
    List.length_append
  have hshort : (s.push job).short ↔
      s.threads.card - s.actives.card - s.exits < s.pendingJobs.length + 1 := by
    rw [← hlength, ← sizeSub_of_le (b := s.exits) (by omega),
      ← sizeSub_of_le (b := s.actives.card) (by omega)]
    show sizeSub (sizeSub _ _) (sizeT s.exits) < _ ↔ _
    rw [hexits]
    exact Iff.rfl
  rw [GrowableThreadPool.card_jobWaiters] at hmin
  split at hu
  next hfew =>
    have hfew := hshort.mp hfew
    have hspawn : ∀ w, u.tally w = s.tally w + s.size * w .starting := by
      rw [hu]
      exact tally_spawn s.size
    have hidle := hspawn Place.idle
    have hlooks := hspawn Place.looks
    have hwaits := hspawn Place.waits
    have howed := hspawn Place.owed
    have htend := hspawn Place.tended
    dsimp only [Place.idle, Place.looks, Place.waits, Place.owed, Place.tended]
      at hidle hlooks hwaits howed htend
    subst hu
    refine Good.of_wakeUp (hsound.push.spawn hroom) ?_ ?_ ?_ ?_ ?_ ?_ hsub
    · show (s.push job).pendingJobs.length + s.exits ≤ _
      omega
    · show _ → (s.push job).pendingJobs.length + s.exits ≤ _
      omega
    · show _ = s.exits + s.exited.length
      omega
    · show s.exited.length ≤ _
      omega
    · show 0 < s.exits → s.exits < _
      omega
    · show _ < (s.push job).pendingJobs.length + s.exits + s.threshold
      omega
  next hfew =>
    have hfew := mt hshort.mpr hfew
    subst hu
    have htally : ∀ w, (s.push job).tally w = s.tally w := fun _ => rfl
    rw [htally] at hmin
    refine Good.of_wakeUp hsound.push ?_ ?_ howes htended hslack ?_ hsub
    · show (s.push job).pendingJobs.length + s.exits ≤ s.tally Place.idle
      omega
    · show _ < s.tally Place.waits →
        (s.push job).pendingJobs.length + s.exits ≤ s.tally Place.looks + _
      omega
    · show s.tally Place.idle <
        (s.push job).pendingJobs.length + s.exits + s.threshold
      omega

/-- `Initialize` of a pool that has no threads. -/
theorem Good.initializeSize {size : Nat} (h : Good s)
    (hs : s.initializeSize size = some s') : Good s' := by
  rw [GrowableThreadPool.initializeSize] at hs
  obtain ⟨hcond, ⟨⟩⟩ := Option.ite_none_left_eq_some.mp hs
  have hsize : 0 < size := Nat.pos_of_ne_zero fun heq => hcond (.inl heq)
  have hempty : s.threads.card = 0 := by
    rw [Finset.card_eq_zero]
    by_contra hne
    exact hcond (.inr (.inr hne))
  have hcard := h.sound.card_threads
  obtain ⟨⟨-, hopen, hfresh, hthreads, hactives, hproper, hroom⟩,
    ⟨haccount, hcovered, howes, htended, hslack⟩, hcalm⟩ := h
  refine ⟨⟨hsize, hopen, hfresh, hthreads, hactives, hproper, hroom⟩,
    ⟨haccount, hcovered, howes, htended, hslack⟩, ?_⟩
  show s.tally Place.idle <
    s.pendingJobs.length + s.exits + (size + (size / 2 + size % 2))
  omega

theorem good_start {size : Nat}
    (hs : (GrowableThreadPool.new : GrowableThreadPool Job).initializeSize size =
      some s) : Good s := by
  rw [GrowableThreadPool.initializeSize] at hs
  obtain ⟨hcond, ⟨⟩⟩ := Option.ite_none_left_eq_some.mp hs
  have hsize : 0 < size := Nat.pos_of_ne_zero fun heq => hcond (.inl heq)
  refine ⟨⟨hsize, rfl, fun _ _ => rfl, fun _ => ⟨nofun, nofun⟩,
    fun _ => ⟨nofun, nofun⟩, fun _ => trivial, Nat.two_pow_pos 64⟩,
    ⟨Nat.le_refl _, fun _ => Nat.le_refl _, rfl, Nat.le_refl _, nofun⟩, ?_⟩
  show 0 < 0 + 0 + (size + (size / 2 + size % 2))
  omega

/-- **THE BALANCE IS KEPT** until `Shutdown`, or an `AppendJob` that throws. -/
theorem Good.next {a : Act Job} (h : Good s) (hopen : Open s a)
    (hs : next s a = some s') : Good s' := by
  cases a with
  | initializeSize size => exact h.initializeSize hs
  | appendJob job who => exact h.appendJob hs
  | appendJobThrows job made => exact hopen.elim
  | requestJob t jobs who => exact h.requestJob hs
  | resume t who => exact h.resume hs
  | stir t => exact h.stir hs
  | cancel t =>
      have hs : s.cancel t = some s' := hs
      rw [GrowableThreadPool.cancel] at hs
      split at hs
      next hp => cases h.sound.not_terminated hp
      next => cases hs
  | shutdown waitForJobsDone => exact hopen.elim
  | joined =>
      have hs : s.joined = some s' := hs
      rw [GrowableThreadPool.joined, h.sound.is_open] at hs
      obtain ⟨⟨hini, -⟩, -⟩ := Option.ite_none_right_eq_some.mp hs
      cases hini

theorem good_init (h : (pool Job).init s) : Good s := by
  obtain ⟨size, hs⟩ := h
  exact good_start hs

theorem reachable_good (h : Reachable ((pool Job).restrict Open) s) : Good s := by
  refine h.invariant (fun s h0 => ?_) fun s a s' _ hi hs => ?_
  · exact good_init h0
  · exact hi.next hs.1 hs.2

-- ── Progress ─────────────────────────────────────────────────────────────────

/-- In the `Wait` for a job, or in that for an exit. -/
def Place.Blocked (p : Place Job) : Prop := p.waits = 1 ∨ p.stalls = 1

instance (p : Place Job) : Decidable p.Blocked :=
  inferInstanceAs (Decidable (_ ∨ _))

/-- Each that is idle looks, waits, or is owed a thread. -/
theorem Sound.tally_idle_le (h : Sound s) :
    s.tally Place.idle ≤
      s.tally Place.owed + (s.tally Place.looks + s.tally Place.waits) := by
  rw [GrowableThreadPool.tally, GrowableThreadPool.tally, GrowableThreadPool.tally,
    GrowableThreadPool.tally, ← total_add, ← total_add]
  refine total_mono fun t _ => ?_
  cases hp : s.place t with
  | reaping reaped exits blocked =>
      have hlt := h.reaping_lt hp
      show 1 ≤ exits - reaped + 0
      omega
  | _ =>
      dsimp only [Place.idle, Place.owed, Place.looks, Place.waits]
      omega

/-- A thread that waits for exits is owed one. -/
theorem Sound.owed_pos (h : Sound s) (hstalls : (s.place t).stalls = 1) :
    0 < s.tally Place.owed := by
  have ht : t < s.spawned := h.lt fun heq => by rw [heq] at hstalls; cases hstalls
  obtain ⟨reaped, exits, hp⟩ := Place.stalls_eq_one hstalls
  have hlt := h.reaping_lt hp
  have hle : (s.place t).owed ≤ s.tally Place.owed := le_total ht
  rw [hp] at hle
  have hle : exits - reaped ≤ s.tally Place.owed := hle
  omega

/-- If all that are idle are blocked, none has exited that is not joined, so no
    more than those that reap are to exit.  Nobody waits for a job then unless
    nothing is left to do, and each that reaps is to join one at least, which are
    all of the idle ones. -/
theorem Good.progress (h : Good s)
    (hneed : s.pendingJobs ≠ [] ∨ ∃ t, (s.place t).stalls = 1) :
    ∃ u ∈ s.threads, u ∉ s.actives ∧ ¬ (s.place u).Blocked := by
  by_contra hnone
  have hblocked : ∀ u, (s.place u).idle = 1 → (s.place u).Blocked := by
    intro u hu
    obtain ⟨hlive, hruns⟩ := Place.of_idle hu
    by_contra hnot
    refine hnone ⟨u, (h.sound.threads u).mpr hlive, ?_, hnot⟩
    rw [h.sound.actives, hruns]
    exact nofun
  have hlooks : s.tally Place.looks = 0 := by
    by_contra hne
    obtain ⟨t, -, hpos⟩ := exists_of_total_pos (Nat.pos_of_ne_zero hne)
    have hb := hblocked t
    match hp : s.place t with
    | .starting | .woken =>
        rw [hp] at hb
        rcases hb rfl with hw | hw
        · cases hw
        · cases hw
    | .absent | .running _ _ | .waiting | .reaping _ _ _ | .gone =>
        rw [hp] at hpos
        cases hpos
  have htend : s.tally Place.tended = 0 := by
    by_contra hne
    obtain ⟨t, -, hpos⟩ := exists_of_total_pos (Nat.pos_of_ne_zero hne)
    have hb := hblocked t
    match hp : s.place t with
    | .reaping _ _ false =>
        rw [hp] at hb
        rcases hb rfl with hw | hw
        · cases hw
        · cases hw
    | .absent | .starting | .running _ _ | .waiting | .woken
    | .reaping _ _ true | .gone =>
        rw [hp] at hpos
        cases hpos
  have hidle := h.sound.tally_idle_le
  obtain ⟨haccount, hcovered, howes, htended, hslack⟩ := h.balance
  rcases hneed with hjob | ⟨t, hstalls⟩
  · have hpending := List.length_pos_iff.mpr hjob
    omega
  · have howed := h.sound.owed_pos hstalls
    omega

-- ── The pool until it is shut down ───────────────────────────────────────────

/-- It calls `RequestJob` next. -/
def Place.Asks : Place Job → Prop
  | .starting => True
  | .running _ _ => True
  | _ => False

theorem Good.account (h : Good s) :
    s.actives.card + s.pendingJobs.length + s.exits ≤ s.threads.card := by
  have hcard := h.sound.card_threads
  have haccount := h.balance.account
  omega

/-- A thread that calls `RequestJob` leaves the balance, or one to shrink. -/
theorem Good.enter (h : Good s) (hp : (s.place t).Asks) :
    Good (s.enter t) ∨ Full (s.enter t) := by
  match hp' : s.place t with
  | .starting => exact .inl (h.enter_starting hp')
  | .running job terminated => exact h.enter_running hp'
  | .absent | .waiting | .woken | .reaping _ _ _ | .gone =>
      rw [hp'] at hp
      exact hp.elim

/-- No subtraction wraps, a pool is shrunk by `_size` of its idle threads, which
    `_size` wake-ups are enough for, and whenever a job is pending or a thread
    waits for exits, some thread that is not active is not blocked. -/
structure Accounted (s : GrowableThreadPool Job) : Prop where
  account : s.actives.card + s.pendingJobs.length + s.exits ≤ s.threads.card
  shrinks : ∀ t, (s.place t).Asks →
    (s.enter t).actives.card + (s.enter t).pendingJobs.length +
      (s.enter t).exits ≤ (s.enter t).threads.card ∧
    ((s.enter t).threshold ≤ (s.enter t).idles →
      (s.enter t).shrinkBy = s.size ∧ s.size < (s.enter t).idles ∧
      ∀ jobs, Wakes (s.enter t).jobWaiters s.size jobs →
        ((s.enter t).shrink t jobs).jobWaiters.Nonempty →
        ((s.enter t).shrink t jobs).pendingJobs.length +
          ((s.enter t).shrink t jobs).exits ≤
          ((s.enter t).shrink t jobs).tally Place.looks)
  progress : (s.pendingJobs ≠ [] ∨ ∃ t, (s.place t).stalls = 1) →
    ∃ u ∈ s.threads, u ∉ s.actives ∧ ¬ (s.place u).Blocked

/-- **THE POOL IS ACCOUNTED FOR AND GOES ON** until `Shutdown`, as long as no
    `AppendJob` throws. -/
theorem accounts_and_progresses (h : Reachable ((pool Job).restrict Open) s) :
    Accounted s := by
  have hgood := reachable_good h
  refine ⟨hgood.account, fun t ht => ?_, hgood.progress⟩
  rcases hgood.enter ht with henter | hfull
  · refine ⟨henter.account, fun hge => ?_⟩
    exact absurd henter.idles_lt (Nat.not_lt.mpr hge)
  · refine ⟨?_, fun _ => ?_⟩
    · have hcard := hfull.sound.card_threads
      have haccount := hfull.balance.account
      omega
    · obtain ⟨hby, hlt⟩ := shrinkBy_eq hfull.sound.size_pos hfull.idles_eq
      refine ⟨hby, hlt, fun jobs hjobs hsome => ?_⟩
      have hshrunk := hfull.shrink (Function.update_self ..) hjobs
      have hpos := hsome.card_pos
      rw [GrowableThreadPool.card_jobWaiters] at hpos
      exact hshrunk.balance.covered hpos

namespace Pair

/-- Two jobs are appended to a pool of size one, and the first is done. -/
def trace : List (Act Nat) :=
  [.appendJob 7 ∅, .appendJob 8 ∅, .requestJob 0 ∅ ∅,
    .requestJob 1 ∅ ∅, .requestJob 0 ∅ ∅]

def start : GrowableThreadPool Nat :=
  (GrowableThreadPool.new.initializeSize 1).get (by decide)

/-- The first thread waits, the second one runs its job. -/
def working : GrowableThreadPool Nat :=
  (trace.foldlM next start).get (by decide)

/-- The second one waits for the exit of the first. -/
def shrunk : GrowableThreadPool Nat :=
  (next working (.requestJob 1 {0} ∅)).get (by decide)

/-- No thread could be made for the job. -/
def alone : GrowableThreadPool Nat :=
  (next start (.appendJobThrows 7 0)).get (by decide)

theorem reachable_working : Reachable ((pool Nat).restrict Open) working := by
  have hopen : ∀ a ∈ trace, Open start a := by decide
  refine Reachable.follow (fun a ha s s' hs => ?_)
    (.start ⟨1, (Option.some_get _).symm⟩) (Option.some_get _).symm
  exact ⟨hopen a ha, hs⟩

theorem reachable_shrunk : Reachable ((pool Nat).restrict Open) shrunk :=
  .next (l := .requestJob 1 {0} ∅) reachable_working
    ⟨trivial, (Option.some_get _).symm⟩

end Pair

/-- The second of two threads shrinks the pool, and waits for the first. -/
theorem accounts_and_progresses_pair :
    (Pair.working.enter 1).shrinkBy = 1 ∧
    ∃ u ∈ Pair.shrunk.threads, u ∉ Pair.shrunk.actives ∧
      ¬ (Pair.shrunk.place u).Blocked := by
  have hworking := accounts_and_progresses Pair.reachable_working
  have hshrunk := accounts_and_progresses Pair.reachable_shrunk
  refine ⟨((hworking.shrinks 1 trivial).2 (by decide)).1,
    hshrunk.progress (.inr ⟨1, ?_⟩)⟩
  decide

/-- **A JOB IS LEFT** in a pool that has no thread. -/
theorem job_left : ¬∀ s, Reachable ((pool Nat).restrict Early) s → Accounted s := by
  intro hclaim
  have hstart : Reachable ((pool Nat).restrict Early) Pair.start :=
    .start ⟨1, (Option.some_get _).symm⟩
  have halone : Reachable ((pool Nat).restrict Early) Pair.alone :=
    .next (l := .appendJobThrows 7 0) hstart ⟨trivial, (Option.some_get _).symm⟩
  obtain ⟨u, hu, -⟩ := (hclaim _ halone).progress (.inl (by decide))
  have hnone : Pair.alone.threads = ∅ := by decide
  rw [hnone] at hu
  exact absurd hu (Finset.notMem_empty u)

end FlinterGrowableThreadPool
