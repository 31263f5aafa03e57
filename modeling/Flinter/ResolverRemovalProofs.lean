import Flinter.ResolverCallProofs

/-! # Entries that are removed

    `Clear` and `Aging` remove entries that are not marked.  A call that looks a
    name up or waits for one that does is safe from them; a call that was woken
    after a lookup that succeeded is not, until it runs. -/

namespace FlinterResolver

open Runs FlinterRandom

variable {T A : Type} [DecidableEq A] {randMax : Nat}
variable {get : T → A} {numeric : Family → Text → Bool} {r r' : Resolver T}
variable {c : Cache T} {call : Call} {k : Nat} {old : Cache T → Bool}
variable {family : Family} {host : Text} {l : Label T randMax}

/-- The entry that a call has obtained, if it has not returned. -/
def Stage.holds : Stage → Option Call
  | .lookingUp call => some call
  | .lookedUp call _ => some call
  | .waiting call => some call
  | .woken call => some call
  | _ => none

/-- An entry is deleted while a call that obtained it has not returned. -/
def DeletesInUse (r r' : Resolver T) : Prop :=
  ∃ k call c, (r.stage k).holds = some call ∧ r.entry call = some c ∧ r'.entry call = none

/-- A call was woken and has yet to run, nothing marks its entry any more, and the
    cache is cleared, or aged when the name was resolved more than an hour ago. -/
def Endangers (numeric : Family → Text → Bool) (r : Resolver T) (l : Label T randMax) : Prop :=
  ∃ k call c, r.stage k = .woken call ∧ r.entry call = some c ∧ c.resolving = false ∧
    (l = .clear ∨
      ∃ j request draws, l = .call j request draws ∧ request.answered numeric = none ∧
        kAgingInterval ≤ request.now - r.lastAging ∧
        c.resolved < request.now - kCacheExpire)

namespace Resolver

/-- The same entries are there, with whatever is in them. -/
def Same (r r' : Resolver T) : Prop :=
  r'.made = r.made ∧ ∀ call, r'.entry call = none ↔ r.entry call = none

theorem Same.trans {r'' : Resolver T} (h : Same r r') (h' : Same r' r'') : Same r r'' :=
  ⟨h'.1.trans h.1, fun call => (h'.2 call).trans (h.2 call)⟩

/-- Nothing is done to the maps. -/
theorem same_of_address (hmade : r'.made = r.made) (h : r'.address = r.address) :
    Same r r' := by
  refine ⟨hmade, fun call => ?_⟩
  rw [entry, entry, h]

theorem same_setEntry (hc : r.entry call = some c) (c' : Cache T) :
    Same r (r.setEntry call c') := by
  refine ⟨rfl, fun call' => ?_⟩
  cases hd : r.entry call' with
  | some d =>
      rcases entry_setEntry (c := c') ⟨c, hc⟩ hd with ⟨-, hentry, -⟩ | ⟨-, hentry⟩
      · rw [hentry]
        exact iff_of_false (Option.some_ne_none _) (Option.some_ne_none _)
      · rw [hentry]
  | none =>
      refine iff_of_true ?_ rfl
      rw [entry, address_setEntry]
      by_cases hslot : call'.family = call.family ∧ call'.host = call.host
      · rw [if_pos hslot]
        refine if_neg fun hentry => ?_
        rw [entry_eq_some, ← hslot.1, ← hslot.2, hentry, ← entry_eq_some, hd] at hc
        cases hc
      · rw [if_neg hslot]
        exact hd

theorem same_loop {draws : List (Fin (randMax + 1))}
    (h : r.loop randMax k call draws = some r') : Same r r' := by
  obtain ⟨c, hc, ⟨-, rfl⟩ | ⟨-, -, rfl⟩ | ⟨-, rfl⟩ | ⟨-, i, rfl⟩⟩ := loop_cases h
  · exact same_of_address rfl rfl
  · exact (same_setEntry hc _).trans (same_of_address rfl rfl)
  · exact same_of_address rfl rfl
  · exact (same_setEntry hc _).trans (same_of_address rfl rfl)

theorem same_relocked {ret : Bool} {now : ℤ} (hc : r.entry call = some c) :
    Same r (r.relocked k call c ret now) :=
  (same_setEntry hc (c.relocked ret now)).trans (same_of_address rfl rfl)

/-- Once the cache was aged, a call deletes nothing. -/
theorem same_call {request : Request} {draws : List (Fin (randMax + 1))}
    (h : r.next get numeric (.call k request draws) = some r')
    (hanswered : request.answered numeric = none) : Same (r.found request).1 r' := by
  cases next_cases h with
  | answered hk hret =>
      rw [hanswered] at hret
      cases hret
  | asks hk hnone hloop => exact same_loop hloop

/-- **STEPS THAT DELETE NOTHING**: all but `Clear` and those that age the cache. -/
theorem same_next (h : r.next get numeric l = some r') :
    l = .clear ∨
      (∃ j request draws, l = .call j request draws ∧ request.answered numeric = none ∧
        Same (r.found request).1 r') ∨
      Same r r' := by
  cases next_cases h with
  | answered hk hanswered => exact .inr (.inr (same_of_address rfl rfl))
  | asks hk hanswered hloop =>
      exact .inr (.inl ⟨_, _, _, rfl, hanswered, same_loop hloop⟩)
  | fails hk => exact .inr (.inr (same_of_address rfl rfl))
  | succeeds hk hc =>
      exact .inr (.inr ((same_setEntry hc _).trans (same_of_address rfl rfl)))
  | relocks hk hc hloop => exact .inr (.inr ((same_relocked hc).trans (same_loop hloop)))
  | stirs hk => exact .inr (.inr (same_of_address rfl rfl))
  | waits hk hc hmark => exact .inr (.inr (same_of_address rfl rfl))
  | wakes hk hloop => exact .inr (.inr (same_loop hloop))
  | clears => exact .inl rfl

/-- A new entry has a number of its own. -/
theorem entry_findOrInsert_none (h : r.entry call = none) (hnew : call.entry ≠ r.made) :
    (r.findOrInsert family host).1.entry call = none := by
  rw [findOrInsert]
  cases hslot : r.address family host with
  | some p => exact h
  | none =>
      rw [entry]
      dsimp only
      by_cases hfamily : call.family = family
      · subst hfamily
        rw [Function.update_self]
        by_cases hhost : call.host = host
        · rw [hhost, Function.update_self]
          exact if_neg hnew.symm
        · rw [Function.update_of_ne hhost]
          exact h
      · rw [Function.update_of_ne hfamily]
        exact h

theorem entry_remove_none (h : r.entry call = some c) :
    (r.remove old).entry call = none ↔ old c = true := by
  cases hold : old c with
  | true =>
      refine iff_of_true ?_ rfl
      rw [entry_eq_some] at h
      rw [entry, remove]
      dsimp only
      rw [h, Option.filter_some, hold]
      rfl
  | false =>
      rw [entry_remove h hold]
      exact iff_of_false (Option.some_ne_none c) Bool.false_ne_true

/-- What `Aging` deletes. -/
theorem entry_aging_none {now : ℤ} (h : r.entry call = some c) :
    (r.aging now).entry call = none ↔
      kAgingInterval ≤ now - r.lastAging ∧ c.resolving = false ∧
        c.resolved < now - kCacheExpire := by
  rw [aging]
  split
  · next hlt =>
      rw [h]
      exact iff_of_false (Option.some_ne_none c)
        fun hle => absurd hle.1 (Int.not_le.mpr hlt)
  · next hnot =>
      have hentry : ({ r with lastAging := now } : Resolver T).entry call = some c := h
      rw [entry_remove_none hentry, and_iff_right (Int.not_lt.mp hnot), aged,
        Bool.and_eq_true, Bool.not_eq_true', decide_eq_true_iff]

end Resolver

/-- The numbers are those of entries that were made. -/
def Numbered (r : Resolver T) : Prop := ∀ call c, r.entry call = some c → call.entry < r.made

namespace Numbered

theorem same (h : Numbered r) (hsame : Resolver.Same r r') : Numbered r' := by
  intro call c hc
  rw [hsame.1]
  cases hd : r.entry call with
  | some d => exact h call d hd
  | none =>
      rw [(hsame.2 call).mpr hd] at hc
      cases hc

theorem remove (h : Numbered r) (old : Cache T → Bool) : Numbered (r.remove old) := by
  intro call c hc
  cases hd : r.entry call with
  | some d => exact h call d hd
  | none =>
      rw [Resolver.entry_eq_some, Resolver.remove] at hc
      have hslot := (Option.filter_eq_some_iff.mp hc).1
      rw [Resolver.entry_eq_some.mpr hslot] at hd
      cases hd

theorem aging (h : Numbered r) (now : ℤ) : Numbered (r.aging now) := by
  rw [Resolver.aging]
  split
  · exact h
  · exact remove (r := { r with lastAging := now }) h _

theorem findOrInsert (h : Numbered r) : Numbered (r.findOrInsert family host).1 := by
  intro call c hc
  cases hslot : r.address family host with
  | some p =>
      rw [Resolver.findOrInsert, hslot] at hc ⊢
      exact h call c hc
  | none =>
      have hmade : (r.findOrInsert family host).1.made = r.made + 1 := by
        rw [Resolver.findOrInsert, hslot]
      rw [hmade]
      cases hd : r.entry call with
      | some d => exact Nat.lt_succ_of_lt (h call d hd)
      | none =>
          by_cases hnew : call.entry = r.made
          · exact Nat.lt_succ_of_le hnew.le
          · rw [Resolver.entry_findOrInsert_none hd hnew] at hc
            cases hc

theorem next (h : Numbered r) (hstep : r.next get numeric l = some r') : Numbered r' := by
  rcases Resolver.same_next hstep with rfl | ⟨j, request, draws, rfl, -, hsame⟩ | hsame
  · obtain rfl := Option.some.inj hstep
    exact h.remove _
  · exact ((h.aging request.now).findOrInsert).same hsame
  · exact h.same hsame

end Numbered

theorem numbered_of_reachable (h : Reachable (resolver get numeric randMax) r) :
    Numbered r := by
  refine h.invariant ?_ fun r l r' _ hnumbered hstep => hnumbered.next hstep
  rintro _ ⟨now, rfl⟩
  exact nofun

/-- A call whose entry nothing marks was woken, if it has not returned. -/
theorem woken_of_unmarked (hm : Marked r) (hk : (r.stage k).holds = some call)
    (hc : r.entry call = some c) (hmark : c.resolving = false) :
    r.stage k = .woken call := by
  have hmarked : ∀ d, r.entry call = some d → d.resolving ≠ true := by
    intro d hd
    rw [hc] at hd
    rw [← Option.some.inj hd, hmark]
    nofun
  cases hs : r.stage k with
  | outside | returned ret =>
      rw [hs] at hk
      cases hk
  | lookingUp d | lookedUp d ret =>
      rw [hs] at hk
      obtain rfl := Option.some.inj hk
      obtain ⟨e, he, hresolving, -⟩ := hm.looks k d (by rw [hs]; rfl)
      exact absurd hresolving (hmarked e he)
  | waiting d =>
      rw [hs] at hk
      obtain rfl := Option.some.inj hk
      obtain ⟨e, he, hresolving⟩ := hm.waits k d hs
      exact absurd hresolving (hmarked e he)
  | woken d =>
      rw [hs] at hk
      obtain rfl := Option.some.inj hk
      rfl

/-- What is gone after `DoResolve` has found or made its entry was aged. -/
theorem aged_of_call {request : Request} (hn : Numbered r) (hc : r.entry call = some c)
    (hsame : Resolver.Same (r.found request).1 r') :
    r'.entry call = none ↔ (r.aging request.now).entry call = none := by
  rw [hsame.2, Resolver.found]
  constructor
  · intro hgone
    cases hd : (r.aging request.now).entry call with
    | none => rfl
    | some d =>
        rw [Resolver.entry_findOrInsert hd] at hgone
        cases hgone
  · intro hgone
    have hmade : (r.aging request.now).made = r.made := by
      rw [Resolver.aging]
      split
      · rfl
      · rfl
    refine Resolver.entry_findOrInsert_none hgone ?_
    rw [hmade]
    exact (hn call c hc).ne

/-- **ONE STEP**: when it deletes an entry in use. -/
theorem deletes_in_use_iff (h : Reachable (resolver get numeric randMax) r)
    (hstep : r.next get numeric l = some r') :
    DeletesInUse r r' ↔ Endangers numeric r l := by
  have hm := marked_of_reachable h
  have hn := numbered_of_reachable h
  constructor
  · rintro ⟨k, call, c, hk, hc, hgone⟩
    rcases Resolver.same_next hstep with rfl | ⟨j, request, draws, rfl, hanswered, hsame⟩ |
      hsame
    · obtain rfl := Option.some.inj hstep
      have hmark := (Resolver.entry_remove_none hc).mp hgone
      rw [Resolver.cleared, Bool.not_eq_true'] at hmark
      exact ⟨k, call, c, woken_of_unmarked hm hk hc hmark, hc, hmark, .inl rfl⟩
    · obtain ⟨hdue, hmark, hexpired⟩ :=
        (Resolver.entry_aging_none hc).mp ((aged_of_call hn hc hsame).mp hgone)
      exact ⟨k, call, c, woken_of_unmarked hm hk hc hmark, hc, hmark,
        .inr ⟨j, request, draws, rfl, hanswered, hdue, hexpired⟩⟩
    · rw [hsame.2, hc] at hgone
      cases hgone
  · rintro ⟨k, call, c, hk, hc, hmark, hremoves⟩
    have hholds : (r.stage k).holds = some call := by
      rw [hk]
      rfl
    refine ⟨k, call, c, hholds, hc, ?_⟩
    rcases hremoves with rfl | ⟨j, request, draws, rfl, hanswered, hdue, hexpired⟩
    · obtain rfl := Option.some.inj hstep
      refine (Resolver.entry_remove_none hc).mpr ?_
      rw [Resolver.cleared, hmark]
      rfl
    · have haged := (Resolver.entry_aging_none hc).mpr ⟨hdue, hmark, hexpired⟩
      exact (aged_of_call hn hc (Resolver.same_call hstep hanswered)).mpr haged

-- ── Runs ─────────────────────────────────────────────────────────────────────

/-- What a call has obtained is there until it returns. -/
def Kept (r : Resolver T) : Prop :=
  ∀ k call, (r.stage k).holds = some call → ∃ c, r.entry call = some c

theorem still_holds {s s' : Stage} (h : Still s s') : s'.holds = s.holds := by
  rcases h with rfl | ⟨d, rfl, rfl⟩
  · rfl
  · rfl

/-- The loop leaves a call with what it has, or with nothing. -/
theorem Resolver.holds_loop {call' : Call} {draws : List (Fin (randMax + 1))} {j : Nat}
    (h : r.loop randMax k call' draws = some r') (hj : (r'.stage j).holds = some call) :
    (r.stage j).holds = some call ∨ ∃ c, r'.entry call = some c := by
  by_cases hjk : j = k
  · subst hjk
    refine .inr ?_
    obtain ⟨c, hc, ⟨-, rfl⟩ | ⟨-, -, rfl⟩ | ⟨-, rfl⟩ | ⟨-, i, rfl⟩⟩ := loop_cases h
    · rw [stage_setStage_self] at hj
      obtain rfl := Option.some.inj hj
      exact ⟨c, hc⟩
    · rw [stage_note, stage_setStage_self] at hj
      obtain rfl := Option.some.inj hj
      exact ⟨_, entry_setEntry_self (r := r)⟩
    · rw [stage_finish_self] at hj
      cases hj
    · rw [stage_finish_self] at hj
      cases hj
  · obtain ⟨es, -, -, hothers⟩ := loop_goes h
    rw [hothers j hjk] at hj
    exact .inl hj

/-- A step of a call that leaves it with what it has, or with nothing. -/
theorem Resolver.holds_setStage {stage : Stage} {j : Nat}
    (hstage : ∀ d, stage.holds = some d → (r.stage k).holds = some d)
    (hj : ((r.setStage k stage).stage j).holds = some call) :
    (r.stage j).holds = some call := by
  by_cases hjk : j = k
  · subst hjk
    rw [stage_setStage_self] at hj
    exact hstage call hj
  · rw [stage_setStage_of_ne r stage hjk] at hj
    exact hj

/-- **WHAT CALLS OBTAIN** is there when they do. -/
theorem Resolver.holds_next {j : Nat} (h : r.next get numeric l = some r')
    (hj : (r'.stage j).holds = some call) :
    (r.stage j).holds = some call ∨ ∃ c, r'.entry call = some c := by
  cases next_cases h with
  | answered hk hanswered =>
      refine .inl (holds_setStage (r := r) (fun d hd => ?_) hj)
      cases hd
  | asks hk hanswered hloop =>
      refine (holds_loop hloop hj).imp_left fun hbefore => ?_
      rw [(found_calls r _).1] at hbefore
      exact hbefore
  | fails hk => exact .inl (holds_setStage (fun d hd => hk ▸ hd) hj)
  | @succeeds k call' c res hk hc =>
      refine .inl (holds_setStage (r := r.setEntry call' (c.set get res))
        (fun d hd => ?_) hj)
      exact (congrArg Stage.holds hk).trans hd
  | relocks hk hc hloop =>
      refine (holds_loop hloop hj).imp_left fun hbefore => ?_
      exact (still_holds (still_wakeAll _ j)).symm.trans hbefore
  | stirs hk => exact .inl (holds_setStage (fun d hd => hk ▸ hd) hj)
  | waits hk hc hmark => exact .inl (holds_setStage (fun d hd => hk ▸ hd) hj)
  | wakes hk hloop => exact holds_loop hloop hj
  | clears => exact .inl hj

theorem Kept.next (h : Kept r) (hstep : r.next get numeric l = some r')
    (hnot : ¬DeletesInUse r r') : Kept r' := by
  intro j call hj
  rcases Resolver.holds_next hstep hj with hbefore | hentry
  · obtain ⟨c, hc⟩ := h j call hbefore
    cases hentry : r'.entry call with
    | some c' => exact ⟨c', rfl⟩
    | none => exact absurd ⟨j, call, c, hbefore, hc, hentry⟩ hnot
  · exact hentry

/-- **ENTRIES IN USE ARE KEPT** in every run without a step that endangers one, and
    only those steps delete any. -/
theorem in_use_kept (get : T → A) (numeric : Family → Text → Bool) (randMax : Nat) :
    (∀ r, Reachable ((resolver get numeric randMax).restrict
      fun r l => ¬Endangers numeric r l) r → Kept r) ∧
    ∀ r r' (l : Label T randMax), Reachable (resolver get numeric randMax) r →
      r.next get numeric l = some r' → (DeletesInUse r r' ↔ Endangers numeric r l) := by
  refine ⟨fun r hr => ?_, fun r r' l hr hstep => deletes_in_use_iff hr hstep⟩
  refine hr.invariant ?_ fun s l s' hs hkept hstep => ?_
  · rintro _ ⟨now, rfl⟩ k call hk
    cases hk
  · refine hkept.next hstep.2 fun hdeletes => hstep.1 ?_
    exact (deletes_in_use_iff hs.of_restrict hstep.2).mp hdeletes

def name : Request := ⟨.inet, some ['a'], 80, true, .first, 0⟩

/-- Two calls for the same name: the first looks it up and succeeds, and the other one
    is woken. -/
def wakes : List (Label Nat 32767) :=
  [.call 0 name [], .call 1 name [], .answer 0 (some [7]), .relock 0 0 []]

def woken : Resolver Nat :=
  (wakes.foldlM (Resolver.next id noNumeric) (newResolver 0)).get (by decide)

theorem woken_reachable : Reachable (resolver id noNumeric 32767) woken := by
  have hrun : wakes.foldlM (Resolver.next id noNumeric) (newResolver 0) = some woken :=
    (Option.some_get _).symm
  exact Reachable.follow (fun _ _ _ _ hstep => hstep) (.start ⟨0, rfl⟩) hrun

/-- The first of them looks the name up. -/
def asked : Resolver Nat :=
  ((newResolver 0).next id noNumeric (.call 0 name [] : Label Nat 32767)).get (by decide)

theorem in_use_kept_woken :
    Kept asked ∧
      (DeletesInUse woken woken.clear ↔
        Endangers noNumeric woken (.clear : Label Nat 32767)) := by
  refine ⟨(in_use_kept id noNumeric 32767).1 asked ?_,
    (in_use_kept id noNumeric 32767).2 woken woken.clear .clear woken_reachable rfl⟩
  refine .next (l := .call 0 name []) (.start ⟨0, rfl⟩) ⟨?_, (Option.some_get _).symm⟩
  rintro ⟨k, call, c, hk, -⟩
  cases hk

/-- An entry is deleted that the other one still has. -/
theorem deleted_in_use : ¬∀ (r r' : Resolver Nat) (l : Label Nat 32767),
    Reachable (resolver id noNumeric 32767) r → r.next id noNumeric l = some r' →
    ¬DeletesInUse r r' := by
  intro h
  have hentry : woken.entry ⟨.inet, ['a'], 0, -300000000000, .first⟩ =
      some ⟨[7], 0, 0, false⟩ := by decide
  refine h woken woken.clear .clear woken_reachable rfl
    ⟨1, ⟨.inet, ['a'], 0, -300000000000, .first⟩, _, by decide, hentry, ?_⟩
  exact (Resolver.entry_remove_none hentry).mpr (by decide)

end FlinterResolver
