import Flinter.GrowableThreadPoolJobProofs

/-! # GrowableThreadPool: each job is taken

    Until `Shutdown` a thread that is not blocked is left for the jobs.  It may
    take an exit, or join what has exited and wait for more; but each time the
    exits are fewer, or the threads that reap and are awake.  So some thread
    comes to take the first job, and from there the next one. -/

namespace FlinterGrowableThreadPool

open Runs Tallies Desks FlinterThread

/-- What a thread does of its own. -/
def own : Act ThreadJob → Prop
  | .requestJob _ _ _ | .resume _ _ => True
  | _ => False

/-- It reaps and is awake. -/
def Place.stirs : Place ThreadJob → Nat
  | .reaping _ _ false => 1
  | _ => 0

variable {start : GrowableThreadPool ThreadJob → Prop}
variable {s s' u : GrowableThreadPool ThreadJob} {t : Nat} {who : Finset Nat}
variable {job : ThreadJob} {rest : List ThreadJob}

/-- A thread that looks for a job takes the first one, or an exit. -/
theorem Good.can_take (h : Good s) (hp : s.place t = .woken)
    (hpending : s.pendingJobs = job :: rest) :
    ∃ who s', s.tryRequestJob t false who = some s' ∧ Good s' ∧
      ((s'.place t = .running job false ∧ s'.pendingJobs = rest) ∨
        (s'.pendingJobs = job :: rest ∧ s'.exits < s.exits)) := by
  have hnot : ¬s.initializing = true := by
    rw [h.sound.is_open]
    exact nofun
  have hexits := h.balance.sizeT_exits h.sound
  by_cases hpos : 0 < s.exits
  · have hwakes : Wakes (s.retire t).exitWaiters 1 (s.retire t).exitWaiters :=
      ⟨Finset.Subset.refl _, Nat.min_le_right ..⟩
    have hs : s.tryRequestJob t false (s.retire t).exitWaiters =
        some ((s.retire t).wakeUp (s.retire t).exitWaiters) := by
      rw [GrowableThreadPool.tryRequestJob, hexits, if_pos hpos]
      exact (if_neg hnot).trans (if_pos hwakes)
    refine ⟨_, _, hs, h.tryRequestJob hp hs, .inr ⟨hpending, ?_⟩⟩
    show s.exits - 1 < s.exits
    omega
  · have hs : s.tryRequestJob t false ∅ = some ({ s with
        pendingJobs := rest
        actives := insert t s.actives }.setPlace t (.running job false)) := by
      rw [GrowableThreadPool.tryRequestJob, hexits, if_neg hpos, hpending]
    exact ⟨_, _, hs, h.tryRequestJob hp hs, .inl ⟨Function.update_self .., rfl⟩⟩

/-- So the job is taken if it is when the exits are fewer. -/
theorem Good.comes_of_woken (h : Good u) (hp : u.place t = .woken)
    (hpending : u.pendingJobs = job :: rest)
    (hstep : ∀ who s', u.tryRequestJob t false who = some s' →
      ∃ a, own a ∧ FlinterGrowableThreadPool.next s a = some s' ∧
        effect s a = asked t (some s'))
    (hfewer : ∀ s', Good s' → s'.pendingJobs = job :: rest →
      s'.exits < u.exits → (jobPool start).Comes own Good () job rest s') :
    (jobPool start).Comes own Good () job rest s := by
  obtain ⟨who, s', hs, hgood, htaken⟩ := h.can_take hp hpending
  obtain ⟨a, ha, hnext, he⟩ := hstep who s' hs
  rcases htaken with ⟨hplace, hrest⟩ | ⟨hkept, hlt⟩
  · refine .takes (t := t) ha hnext (he.trans ?_) hgood hrest
    rw [asked, hplace]
  · exact .goes ha hnext (hfewer s' hgood hkept hlt)

/-- **THE FIRST JOB IS TAKEN**. -/
theorem Good.comes (h : Good s) (hpending : s.pendingJobs = job :: rest) :
    (jobPool start).Comes own Good () job rest s := by
  -- the exits fall, or what reaps and is awake
  induction hn : s.exits using Nat.strong_induction_on generalizing s with
  | _ n ihexits =>
  induction hm : s.tally Place.stirs using Nat.strong_induction_on
    generalizing s with
  | _ m ihstirs =>
  subst hn hm
  obtain ⟨t, ht, hidle, hawake⟩ :=
    h.progress (.inl (by rw [hpending]; exact List.cons_ne_nil job rest))
  have hfewer : ∀ {u : GrowableThreadPool ThreadJob}, u.exits = s.exits →
      ∀ s', Good s' → s'.pendingJobs = job :: rest → s'.exits < u.exits →
        (jobPool start).Comes own Good () job rest s' := by
    intro u heq s' hgood hkept hlt
    exact ihexits s'.exits (heq ▸ hlt) hgood hkept rfl
  match hp : s.place t with
  | .starting =>
      have hgood := h.enter_starting hp
      refine hgood.comes_of_woken (t := t) (Function.update_self ..) hpending
        (fun who s' hs => ?_) (hfewer rfl)
      have hs' : s.requestJob t ∅ who = some s' := by
        rw [GrowableThreadPool.requestJob, hp]
        exact (if_pos (.inr hgood.idles_lt)).trans hs
      exact ⟨.requestJob t ∅ who, trivial, hs', congrArg (asked t) hs'⟩
  | .woken =>
      refine h.comes_of_woken hp hpending (fun who s' hs => ?_) (hfewer rfl)
      have hs' : s.resume t who = some s' := by
        rw [GrowableThreadPool.resume, hp]
        exact hs
      exact ⟨.resume t who, trivial, hs', congrArg (asked t) hs'⟩
  | .reaping reaped exits false =>
      have hlt := h.sound.reaping_lt hp
      have hresume : ∀ who, s.resume t who = s.reap t reaped exits who := by
        intro who
        rw [GrowableThreadPool.resume, hp]
      generalize hjoined : min (exits - reaped) s.exited.length = joined
      by_cases hdone : reaped + joined = exits
      · have hgood := h.done_reaping hp hdone (by omega)
        refine hgood.comes_of_woken (t := t) (Function.update_self ..) hpending
          (fun who s' hs => ?_) (hfewer rfl)
        have hs' : s.resume t who = some s' := by
          rw [hresume, GrowableThreadPool.reap, hjoined, if_pos hdone]
          exact hs
        exact ⟨.resume t who, trivial, hs', congrArg (asked t) hs'⟩
      · have hs : s.resume t ∅ = some ({ s with
            exited := s.exited.drop joined }.setPlace t
            (.reaping (reaped + joined) exits true)) := by
          rw [hresume, GrowableThreadPool.reap, hjoined, if_neg hdone]
        have hlt : t < s.spawned := h.sound.lt (by rw [hp]; simp)
        have hmove := tally_move (q := .reaping (reaped + joined) exits true)
          (u := { s with exited := s.exited.drop joined }.setPlace t
            (.reaping (reaped + joined) exits true)) hlt rfl rfl Place.stirs
        rw [hp] at hmove
        have hmove : _ + 1 = _ + 0 := hmove
        have hgood := h.resume hs
        exact .goes (a := .resume t ∅) trivial hs
          (ihstirs _ (by omega) hgood hpending rfl rfl)
  | .absent | .gone =>
      have hlive := (h.sound.threads t).mp ht
      rw [hp] at hlive
      cases hlive
  | .running _ _ =>
      rw [h.sound.actives, hp] at hidle
      exact absurd rfl hidle
  | .waiting =>
      rw [hp] at hawake
      exact absurd (.inl rfl) hawake
  | .reaping _ _ true =>
      rw [hp] at hawake
      exact absurd (.inr rfl) hawake

/-- **EACH JOB IS TAKEN** in turn. -/
theorem Good.serves (h : Good s) (hin : job ∈ s.pendingJobs) :
    (jobPool start).Serves own () job s :=
  serves_of_comes (I := Good) (fun _ _ _ hgood hpending => hgood.comes hpending) h hin

end FlinterGrowableThreadPool
