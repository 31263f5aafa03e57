import Flinter.ResolverCallProofs

/-! # Lookups that fail

    A call of `DoResolve` whose lookup failed makes another one, before any other
    call could change the entry.  It has no other way out than a lookup that
    succeeds: as long as its lookups fail it makes one after the other. -/

namespace FlinterResolver

open Runs

variable {T A : Type} [DecidableEq A] {randMax : Nat}
variable {get : T → A} {numeric : Family → Text → Bool} {r r' : Resolver T}
variable {k j : Nat} {ret : Bool} {s s' : Stage} {es log log' : List Event} {e : Event}

/-- After a lookup that failed there is no other one. -/
def GivesUp (k : Nat) (log : List Event) : Prop :=
  ∀ before after, log = before ++ .failed k :: after → .lookup k ∉ after

/-- After a lookup that failed there is another one. -/
def Repeats (log : List Event) : Prop :=
  ∀ k before after, log = before ++ .failed k :: after → .lookup k ∈ after

theorem Repeats.append (h : Repeats log) (h' : Repeats log') : Repeats (log ++ log') := by
  intro k before after heq
  rcases List.append_eq_append_iff.mp heq with ⟨rest, rfl, hrest⟩ | ⟨rest, hrest, hlog'⟩
  · exact h' k rest after hrest
  · cases rest with
    | nil => exact h' k [] after hlog'.symm
    | cons e rest =>
        obtain ⟨rfl, rfl⟩ := List.cons.inj hlog'
        exact List.mem_append_left log' (h k before rest hrest)

/-- What a call does from the lock. -/
theorem goes_event (h : Goes k s es) (he : e ∈ es) :
    e = .lookup k ∧ s.looks.isSome ∨ ∃ ret, e = .returned k ret ∧ s = .returned ret := by
  cases h with
  | waits d => cases he
  | looks d => exact .inl ⟨List.mem_singleton.mp he, rfl⟩
  | returns ret => exact .inr ⟨ret, List.mem_singleton.mp he, rfl⟩

theorem Repeats.of_none (h : ∀ k, .failed k ∉ es) : Repeats es := by
  rintro k before after rfl
  exact absurd (List.mem_append_right before List.mem_cons_self) (h k)

theorem goes_repeats (h : Goes k s es) : Repeats es := by
  refine .of_none fun j hj => ?_
  rcases goes_event h hj with ⟨heq, -⟩ | ⟨ret, heq, -⟩
  · cases heq
  · cases heq

theorem move_repeats (h : Move k s s' es) : Repeats es := by
  cases h with
  | enters hgoes => exact goes_repeats hgoes
  | answered d ret => exact .of_none fun j hj => nomatch hj
  | succeeds d hgoes =>
      have hone : Repeats [.succeeded k] := .of_none fun j hj => by simp at hj
      exact hone.append (goes_repeats hgoes)
  | fails d =>
      intro j before after heq
      cases before with
      | nil =>
          obtain ⟨hj, rfl⟩ := List.cons.inj heq
          obtain rfl := Event.failed.inj hj
          exact List.mem_singleton_self _
      | cons e before =>
          have hmem : Event.failed j ∈ [Event.lookup k] := by
            rw [(List.cons.inj heq).2]
            exact List.mem_append_right before List.mem_cons_self
          exact absurd (List.mem_singleton.mp hmem) nofun
  | stirs d => exact .of_none fun j hj => nomatch hj
  | wakes d hgoes => exact goes_repeats hgoes

/-- A call that looked a name up and did not succeed looks it up still, and one that
    returned does nothing more. -/
structure Persists (r : Resolver T) : Prop where
  repeats : Repeats r.log
  looks : ∀ k, .lookup k ∈ r.log → .succeeded k ∈ r.log ∨ (r.stage k).looks.isSome
  returned : ∀ k ret, .returned k ret ∈ r.log → r.stage k = .returned ret

/-- What a move says of the call that moves. -/
theorem move_self (h : Move k s s' es) :
    (∀ j, .lookup j ∈ es → j = k ∧ s'.looks.isSome) ∧
    (∀ j ret, .returned j ret ∈ es → j = k ∧ s' = .returned ret) ∧
    (s.looks.isSome → .succeeded k ∈ es ∨ s'.looks.isSome) ∧
    ∀ ret, s ≠ .returned ret := by
  have hgo : ∀ {s' es}, Goes k s' es → (∀ j, .lookup j ∈ es → j = k ∧ s'.looks.isSome) ∧
      ∀ j ret, .returned j ret ∈ es → j = k ∧ s' = .returned ret := by
    intro s' es hgoes
    refine ⟨fun j hj => ?_, fun j ret hj => ?_⟩
    · rcases goes_event hgoes hj with ⟨heq, hlooks⟩ | ⟨ret, heq, -⟩
      · exact ⟨Event.lookup.inj heq, hlooks⟩
      · cases heq
    · rcases goes_event hgoes hj with ⟨heq, -⟩ | ⟨ret', heq, hs⟩
      · cases heq
      · obtain ⟨rfl, rfl⟩ := Event.returned.inj heq
        exact ⟨rfl, hs⟩
  cases h with
  | enters hgoes => exact ⟨(hgo hgoes).1, (hgo hgoes).2, nofun, nofun⟩
  | answered d ret => exact ⟨nofun, nofun, fun _ => .inr rfl, nofun⟩
  | succeeds d hgoes =>
      refine ⟨fun j hj => (hgo hgoes).1 j ?_, fun j ret hj => (hgo hgoes).2 j ret ?_,
        fun _ => .inl List.mem_cons_self, nofun⟩
      · exact (List.mem_cons.mp hj).resolve_left nofun
      · exact (List.mem_cons.mp hj).resolve_left nofun
  | fails d =>
      refine ⟨fun j hj => ⟨?_, rfl⟩, fun j ret hj => ?_, fun _ => .inr rfl, nofun⟩
      · have hlookup := (List.mem_cons.mp hj).resolve_left nofun
        exact Event.lookup.inj (List.mem_singleton.mp hlookup)
      · have hreturned := (List.mem_cons.mp hj).resolve_left nofun
        exact absurd (List.mem_singleton.mp hreturned) nofun
  | stirs d => exact ⟨nofun, nofun, nofun, nofun⟩
  | wakes d hgoes => exact ⟨(hgo hgoes).1, (hgo hgoes).2, nofun, nofun⟩

/-- A call that does nothing goes on looking up, or is still back. -/
theorem still_looks (h : Still s s') : s'.looks = s.looks := by
  rcases h with rfl | ⟨d, rfl, rfl⟩
  · rfl
  · rfl

theorem still_returned (h : Still s s') (hs : s = .returned ret) : s' = .returned ret := by
  rcases h with rfl | ⟨d, rfl, rfl⟩
  · exact hs
  · cases hs

theorem Persists.moves (h : Persists r) (hmoves : Moves r k r') : Persists r' := by
  obtain ⟨es, hmove, hlog, hothers⟩ := hmoves
  obtain ⟨hlookup, hreturned, hlooks, hnot⟩ := move_self hmove
  refine ⟨?_, fun j hj => ?_, fun j ret hj => ?_⟩
  · rw [hlog]
    exact h.repeats.append (move_repeats hmove)
  · rw [hlog] at hj ⊢
    rw [List.mem_append]
    by_cases hjk : j = k
    · subst hjk
      rcases List.mem_append.mp hj with hj | hj
      · rcases h.looks j hj with hsucceeded | hstage
        · exact .inl (.inl hsucceeded)
        · exact (hlooks hstage).imp_left .inr
      · exact .inr (hlookup j hj).2
    · rw [still_looks (hothers j hjk)]
      rcases List.mem_append.mp hj with hj | hj
      · exact (h.looks j hj).imp_left .inl
      · exact absurd (hlookup j hj).1 hjk
  · rw [hlog] at hj
    by_cases hjk : j = k
    · subst hjk
      rcases List.mem_append.mp hj with hj | hj
      · exact absurd (h.returned j ret hj) (hnot ret)
      · exact (hreturned j ret hj).2
    · rcases List.mem_append.mp hj with hj | hj
      · exact still_returned (hothers j hjk) (h.returned j ret hj)
      · exact absurd (hreturned j ret hj).1 hjk

theorem persists_of_reachable (h : Reachable (resolver get numeric randMax) r) :
    Persists r := by
  refine h.invariant ?_ fun r l r' hr hpersists hstep => ?_
  · rintro _ ⟨now, rfl⟩
    exact ⟨.of_none nofun, nofun, nofun⟩
  · rcases next_moves (marked_of_reachable hr) hstep with ⟨hstage, hlog⟩ | ⟨k, hmoves⟩
    · refine ⟨?_, fun k hk => ?_, fun k ret hk => ?_⟩
      · rw [hlog]
        exact hpersists.repeats
      · rw [hlog] at hk ⊢
        rw [hstage]
        exact hpersists.looks k hk
      · rw [hlog] at hk
        rw [hstage]
        exact hpersists.returned k ret hk
    · exact hpersists.moves hmoves

/-- **WHEN A CALL GIVES UP AFTER A LOOKUP THAT FAILED**: when none fails.  And one that
    looks a name up returns only if a lookup of its succeeds. -/
theorem gives_up_iff (h : Reachable (resolver get numeric randMax) r) (k : Nat) :
    (GivesUp k r.log ↔ .failed k ∉ r.log) ∧
      (.lookup k ∈ r.log → (∃ ret, .returned k ret ∈ r.log) → .succeeded k ∈ r.log) := by
  have hpersists := persists_of_reachable h
  refine ⟨⟨fun hgives hfailed => ?_, fun hnone before after heq => ?_⟩, fun hlookup hback => ?_⟩
  · obtain ⟨before, after, heq⟩ := List.append_of_mem hfailed
    exact hgives before after heq (hpersists.repeats k before after heq)
  · refine absurd ?_ hnone
    rw [heq]
    exact List.mem_append_right before List.mem_cons_self
  · obtain ⟨ret, hret⟩ := hback
    refine (hpersists.looks k hlookup).resolve_right fun hlooks => ?_
    rw [hpersists.returned k ret hret] at hlooks
    cases hlooks

/-- A call, and the lookup that it makes fails. -/
def failing : List (Label Nat 32767) :=
  [.call 0 ⟨.inet, some ['a'], 80, true, .first, 0⟩ [], .answer 0 none, .relock 0 0 []]

def failed : Resolver Nat :=
  (failing.foldlM (Resolver.next id noNumeric) (newResolver 0)).get (by decide)

theorem failed_reachable : Reachable (resolver id noNumeric 32767) failed := by
  have hrun : failing.foldlM (Resolver.next id noNumeric) (newResolver 0) = some failed :=
    (Option.some_get _).symm
  exact Reachable.follow (fun _ _ _ _ hstep => hstep) (.start ⟨0, rfl⟩) hrun

theorem gives_up_failed :
    (GivesUp 0 failed.log ↔ .failed 0 ∉ failed.log) ∧
      (.lookup 0 ∈ failed.log → (∃ ret, .returned 0 ret ∈ failed.log) →
        .succeeded 0 ∈ failed.log) :=
  gives_up_iff failed_reachable 0

/-- It looks the name up again. -/
theorem looked_up_again : ¬∀ r : Resolver Nat,
    Reachable (resolver id noNumeric 32767) r → ∀ k, GivesUp k r.log := by
  intro h
  have hgives := h failed failed_reachable 0 [.lookup 0] [.lookup 0] (by decide)
  exact hgives (List.mem_singleton_self _)

end FlinterResolver
