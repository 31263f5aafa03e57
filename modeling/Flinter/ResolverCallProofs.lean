import Flinter.ResolverProofs
import Mathlib.Logic.Function.Basic

/-! # Callers that resolve the same names

    `DoResolve` finds or makes the entry of a name, and while the entry is not fresh
    one caller looks the name up, without the lock, and the others wait.  The mark
    `_resolving` keeps an entry from being removed as long as it is looked up.

    A lookup that fails leaves the entry as it was, and the caller that made it
    finds that it is still not fresh and makes another.  A caller that was woken
    after one that did not fail has a pointer to an entry that nothing marks any
    more, until it runs.

    What happens with the lock held, from one time it is taken to the next time it
    is released, is one step. -/

namespace FlinterResolver

open Runs FlinterRandom

abbrev Text := List Char

/-- `AF_INET` and `AF_INET6`, and the map that goes with it. -/
inductive Family where
  | inet
  | inet6
deriving DecidableEq, Repr

/-- `kRefreshTime`. -/
def kRefreshTime : ℤ := 300000000000

/-- `kCacheExpire`. -/
def kCacheExpire : ℤ := 3600000000000

/-- `kAgingInterval`. -/
def kAgingInterval : ℤ := 300000000000

/-- What a call of `DoResolve` has in its local variables: the name of its entry and
    the pointer to it. -/
structure Call where
  family : Family
  host : Text
  entry : Nat
  deadline : ℤ
  option : Choice
deriving DecidableEq, Repr

/-- Where a call is: in `getaddrinfo`, back from it and about to lock again, in
    `Wait`, or woken from it and about to lock again. -/
inductive Stage where
  | outside
  | lookingUp (call : Call)
  | lookedUp (call : Call) (ret : Bool)
  | waiting (call : Call)
  | woken (call : Call)
  | returned (ret : Bool)
deriving DecidableEq, Repr

/-- What calls did, one after the other. -/
inductive Event where
  | lookup (k : Nat)
  | failed (k : Nat)
  | succeeded (k : Nat)
  | returned (k : Nat) (ret : Bool)
deriving DecidableEq, Repr

/-- `Resolver`: both maps, where an entry is numbered as it is made, the calls, and
    what they did. -/
structure Resolver (T : Type) where
  address : Family → Text → Option (Nat × Cache T)
  made : Nat
  lastAging : ℤ
  stage : Nat → Stage
  log : List Event

/-- The arguments of `DoResolve`, and the clock. -/
structure Request where
  family : Family
  hostname : Option Text
  port : Nat
  hasAddr : Bool
  option : Choice
  now : ℤ
deriving DecidableEq, Repr

/-- `DoResolve`: what it returns without the lock, where `numeric` is what `inet_pton`
    says. -/
def Request.answered (numeric : Family → Text → Bool) (request : Request) : Option Bool :=
  match request.hostname with
  | none => some false
  | some hostname =>
      if hostname = [] ∨ request.port = 0 ∨ !request.hasAddr then some false
      else if numeric request.family hostname then some true
      else if hostname.length ≥ 1024 then some false
      else none

/-- What a step chooses: who calls, what `getaddrinfo` comes to (`EAI_NONAME` is a
    list without addresses), what the clock says, what is drawn. -/
inductive Label (T : Type) (randMax : Nat) where
  | call (k : Nat) (request : Request) (draws : List (Fin (randMax + 1)))
  | answer (k : Nat) (res : Option (List T))
  | relock (k : Nat) (now : ℤ) (draws : List (Fin (randMax + 1)))
  | stir (k : Nat)
  | wake (k : Nat) (draws : List (Fin (randMax + 1)))
  | clear

variable {T A : Type} [DecidableEq A] {randMax : Nat}

-- ── The code ─────────────────────────────────────────────────────────────────

namespace Resolver

def setStage (r : Resolver T) (k : Nat) (stage : Stage) : Resolver T :=
  { r with stage := Function.update r.stage k stage }

def note (r : Resolver T) (e : Event) : Resolver T := { r with log := r.log ++ [e] }

/-- What a pointer points to, unless it was deleted. -/
def entry (r : Resolver T) (call : Call) : Option (Cache T) :=
  match r.address call.family call.host with
  | none => none
  | some (id, c) => if id = call.entry then some c else none

/-- A change of an entry. -/
def setEntry (r : Resolver T) (call : Call) (c : Cache T) : Resolver T :=
  { r with
    address := Function.update r.address call.family
      (Function.update (r.address call.family) call.host (some (call.entry, c))) }

/-- `WakeAll`. -/
def wakeAll (r : Resolver T) : Resolver T :=
  { r with
    stage := fun k =>
      match r.stage k with
      | .waiting call => .woken call
      | stage => stage }

/-- Entries are deleted. -/
def remove (r : Resolver T) (old : Cache T → Bool) : Resolver T :=
  { r with
    address := fun family host =>
      (r.address family host).filter fun p => !old p.2 }

/-- `Clear`: the entries that it deletes. -/
def cleared (c : Cache T) : Bool := !c.resolving

/-- `Clear`. -/
def clear (r : Resolver T) : Resolver T := r.remove cleared

/-- `Aging`: the entries that it deletes. -/
def aged (now : ℤ) (c : Cache T) : Bool :=
  !c.resolving && decide (c.resolved < now - kCacheExpire)

/-- `Aging`. -/
def aging (r : Resolver T) (now : ℤ) : Resolver T :=
  if now - r.lastAging < kAgingInterval then r
  else { r with lastAging := now }.remove (aged now)

/-- `find`, and `insert` if nothing is found. -/
def findOrInsert (r : Resolver T) (family : Family) (host : Text) : Resolver T × Nat :=
  match r.address family host with
  | some (id, _) => (r, id)
  | none =>
      ({ r with
        address := Function.update r.address family
          (Function.update (r.address family) host (some (r.made, newCache)))
        made := r.made + 1 }, r.made)

/-- The call returns. -/
def finish (r : Resolver T) (k : Nat) (ret : Bool) : Resolver T :=
  (r.setStage k (.returned ret)).note (.returned k ret)

/-- `DoResolve`, from the condition of its loop on. -/
def loop (randMax : Nat) (r : Resolver T) (k : Nat) (call : Call)
    (draws : List (Fin (randMax + 1))) : Option (Resolver T) :=
  match r.entry call with
  | none => none
  | some c =>
      if c.resolved < 0 ∨ c.resolved < call.deadline then
        if c.resolving then some (r.setStage k (.waiting call))
        else
          some (((r.setEntry call { c with resolving := true }).setStage k
            (.lookingUp call)).note (.lookup k))
      else
        match pick randMax c call.option (draws.map drawn) with
        | .empty => some (r.finish k false)
        | .undefined => none
        | .drawing => none
        | .picked c _ => some ((r.setEntry call c).finish k true)

/-- `DoResolve`, up to its loop. -/
def doResolve (numeric : Family → Text → Bool) (randMax : Nat) (r : Resolver T) (k : Nat)
    (request : Request) (draws : List (Fin (randMax + 1))) : Option (Resolver T) :=
  match request.answered numeric with
  | some ret => some (r.finish k ret)
  | none =>
      let host := (request.hostname.getD []).map Char.toLower
      let (r, id) := (r.aging request.now).findOrInsert request.family host
      r.loop randMax k
        ⟨request.family, host, id, request.now - kRefreshTime, request.option⟩ draws

/-- `DoResolve_getaddrinfo`, and `Set`. -/
def answer (get : T → A) (r : Resolver T) (k : Nat) (call : Call)
    (res : Option (List T)) : Option (Resolver T) :=
  match res with
  | none => some (r.setStage k (.lookedUp call false))
  | some res =>
      (r.entry call).map fun c =>
        (r.setEntry call (c.set get res)).setStage k (.lookedUp call true)

/-- `DoResolve`, from `Relock` on. -/
def relock (randMax : Nat) (r : Resolver T) (k : Nat) (call : Call) (ret : Bool) (now : ℤ)
    (draws : List (Fin (randMax + 1))) : Option (Resolver T) :=
  match r.entry call with
  | none => none
  | some c =>
      let c := { c with resolving := false, resolved := if ret then now else c.resolved }
      (((r.setEntry call c).wakeAll).note
        (if ret then .succeeded k else .failed k)).loop randMax k call draws

/-- `DoResolve`, from `Wait` on. -/
def wake (randMax : Nat) (r : Resolver T) (k : Nat) (call : Call)
    (draws : List (Fin (randMax + 1))) : Option (Resolver T) :=
  match r.entry call with
  | none => none
  | some c =>
      if c.resolving then some (r.setStage k (.waiting call)) else r.loop randMax k call draws

/-- One step. -/
def next (get : T → A) (numeric : Family → Text → Bool) (r : Resolver T) :
    Label T randMax → Option (Resolver T)
  | .call k request draws =>
      match r.stage k with
      | .outside => r.doResolve numeric randMax k request draws
      | _ => none
  | .answer k res =>
      match r.stage k with
      | .lookingUp call => r.answer get k call res
      | _ => none
  | .relock k now draws =>
      match r.stage k with
      | .lookedUp call ret => r.relock randMax k call ret now draws
      | _ => none
  | .stir k =>
      match r.stage k with
      | .waiting call => some (r.setStage k (.woken call))
      | _ => none
  | .wake k draws =>
      match r.stage k with
      | .woken call => r.wake randMax k call draws
      | _ => none
  | .clear => some r.clear

end Resolver

/-- `Resolver()`, at a time. -/
def newResolver (now : ℤ) : Resolver T :=
  ⟨fun _ _ => none, 0, now, fun _ => .outside, []⟩

/-- No name is a numeric address. -/
def noNumeric (_ : Family) (_ : Text) : Bool := false

/-- Any number of calls, and of calls of `Clear`. -/
def resolver (get : T → A) (numeric : Family → Text → Bool) (randMax : Nat) :
    System (Resolver T) (Label T randMax) where
  init := fun r => ∃ now, r = newResolver now
  step := fun r l r' => r.next get numeric l = some r'

-- ── Entries ──────────────────────────────────────────────────────────────────

variable {get : T → A} {numeric : Family → Text → Bool} {r r' : Resolver T}
variable {c c' : Cache T} {call call' : Call} {k j : Nat} {stage : Stage}
variable {draws : List (Fin (randMax + 1))} {old : Cache T → Bool}

/-- Two calls have the same entry. -/
def Call.Shares (call call' : Call) : Prop :=
  call'.family = call.family ∧ call'.host = call.host ∧ call'.entry = call.entry

namespace Resolver

theorem entry_eq_some : r.entry call = some c ↔
    r.address call.family call.host = some (call.entry, c) := by
  rw [entry]
  cases h : r.address call.family call.host with
  | none => exact iff_of_false nofun nofun
  | some p =>
      obtain ⟨id, d⟩ := p
      dsimp only
      by_cases hid : id = call.entry
      · rw [if_pos hid, hid, Option.some.injEq, Option.some.injEq, Prod.mk.injEq,
          and_iff_right rfl]
      · rw [if_neg hid]
        exact iff_of_false nofun fun heq => hid (Prod.mk.inj (Option.some.inj heq)).1

theorem address_setEntry (r : Resolver T) (call : Call) (c : Cache T) (family : Family)
    (host : Text) : (r.setEntry call c).address family host =
      if family = call.family ∧ host = call.host then some (call.entry, c)
      else r.address family host := by
  rw [setEntry]
  dsimp only
  by_cases hfamily : family = call.family
  · subst hfamily
    rw [Function.update_self, Function.update_apply]
    by_cases hhost : host = call.host
    · rw [if_pos hhost, if_pos ⟨rfl, hhost⟩]
    · rw [if_neg hhost, if_neg fun h => hhost h.2]
  · rw [Function.update_of_ne hfamily, if_neg fun h => hfamily h.1]

theorem entry_setEntry_self : (r.setEntry call c).entry call = some c := by
  rw [entry_eq_some, address_setEntry, if_pos ⟨rfl, rfl⟩]

/-- The others find what they found, unless they have the same entry. -/
theorem entry_setEntry (hcall : ∃ d, r.entry call = some d) (h : r.entry call' = some c') :
    call.Shares call' ∧ (r.setEntry call c).entry call' = some c ∧
        r.entry call = some c' ∨
      ¬call.Shares call' ∧ (r.setEntry call c).entry call' = some c' := by
  obtain ⟨d, hd⟩ := hcall
  rw [entry_eq_some] at h hd
  rw [entry_eq_some, entry_eq_some, entry_eq_some, address_setEntry]
  by_cases hslot : call'.family = call.family ∧ call'.host = call.host
  · rw [hslot.1, hslot.2, hd] at h
    obtain ⟨hentry, rfl⟩ := Prod.mk.inj (Option.some.inj h)
    refine .inl ⟨⟨hslot.1, hslot.2, hentry.symm⟩, ?_, hd⟩
    rw [if_pos hslot, hentry]
  · rw [if_neg hslot]
    exact .inr ⟨fun hsame => hslot ⟨hsame.1, hsame.2.1⟩, h⟩

theorem entry_remove (h : r.entry call = some c) (hold : old c = false) :
    (r.remove old).entry call = some c := by
  rw [entry_eq_some] at h ⊢
  rw [remove]
  dsimp only
  rw [h, Option.filter_some, hold]
  rfl

theorem entry_aging {now : ℤ} (h : r.entry call = some c) (hc : c.resolving = true) :
    (r.aging now).entry call = some c := by
  rw [aging]
  split
  · exact h
  · refine entry_remove ?_ (by rw [aged, hc]; rfl)
    exact h

theorem entry_findOrInsert {family : Family} {host : Text} (h : r.entry call = some c) :
    (r.findOrInsert family host).1.entry call = some c := by
  rw [findOrInsert]
  cases hslot : r.address family host with
  | some p => exact h
  | none =>
      rw [entry_eq_some] at h ⊢
      dsimp only
      by_cases hfamily : call.family = family
      · subst hfamily
        have hhost : call.host ≠ host := by
          rintro rfl
          rw [hslot] at h
          cases h
        rw [Function.update_self, Function.update_of_ne hhost, h]
      · rw [Function.update_of_ne hfamily, h]

end Resolver

/-- It is time to look the name up. -/
def Stale (c : Cache T) (call : Call) : Prop := c.resolved < 0 ∨ c.resolved < call.deadline

/-- **WHAT THE LOOP COMES TO**: the call waits, looks the name up, or returns. -/
theorem Resolver.loop_cases (h : r.loop randMax k call draws = some r') :
    ∃ c, r.entry call = some c ∧
      (c.resolving = true ∧ r' = r.setStage k (.waiting call) ∨
        Stale c call ∧ c.resolving = false ∧
          r' = ((r.setEntry call { c with resolving := true }).setStage k
            (.lookingUp call)).note (.lookup k) ∨
        ¬Stale c call ∧ r' = r.finish k false ∨
        ¬Stale c call ∧ ∃ i, r' = (r.setEntry call { c with current := i }).finish k true) := by
  rw [Resolver.loop] at h
  cases hentry : r.entry call with
  | none =>
      rw [hentry] at h
      cases h
  | some c =>
      rw [hentry] at h
      dsimp only at h
      refine ⟨c, rfl, ?_⟩
      by_cases hstale : c.resolved < 0 ∨ c.resolved < call.deadline
      · rw [if_pos hstale] at h
        cases hmark : c.resolving with
        | true =>
            rw [if_pos hmark] at h
            exact .inl ⟨rfl, (Option.some.inj h).symm⟩
        | false =>
            rw [if_neg (by rw [hmark]; nofun)] at h
            exact .inr (.inl ⟨hstale, rfl, (Option.some.inj h).symm⟩)
      · rw [if_neg hstale] at h
        refine .inr (.inr ?_)
        cases hpick : pick randMax c call.option (draws.map drawn) with
        | empty =>
            rw [hpick] at h
            exact .inl ⟨hstale, (Option.some.inj h).symm⟩
        | undefined =>
            rw [hpick] at h
            cases h
        | drawing =>
            rw [hpick] at h
            cases h
        | picked d i =>
            rw [hpick] at h
            obtain rfl := Option.some.inj h
            exact .inr ⟨hstale, i, by rw [pick_cache hpick]⟩

/-- `DoResolve`: the entry that is found or made, once the cache was aged. -/
def Resolver.found (r : Resolver T) (request : Request) : Resolver T × Nat :=
  (r.aging request.now).findOrInsert request.family
    ((request.hostname.getD []).map Char.toLower)

/-- What a call obtains. -/
def Request.obtains (request : Request) (id : Nat) : Call :=
  ⟨request.family, (request.hostname.getD []).map Char.toLower, id,
    request.now - kRefreshTime, request.option⟩

/-- An entry is no longer looked up. -/
def Cache.relocked (c : Cache T) (ret : Bool) (now : ℤ) : Cache T :=
  { c with resolving := false, resolved := if ret then now else c.resolved }

/-- A call that looked up an entry is about to look at it again. -/
def Resolver.relocked (r : Resolver T) (k : Nat) (call : Call) (c : Cache T) (ret : Bool)
    (now : ℤ) : Resolver T :=
  ((r.setEntry call (c.relocked ret now)).wakeAll).note
    (if ret then .succeeded k else .failed k)

/-- What one step does. -/
inductive Next (get : T → A) (numeric : Family → Text → Bool) (r : Resolver T) :
    Label T randMax → Resolver T → Prop where
  | answered {k : Nat} {request : Request} {draws : List (Fin (randMax + 1))} {ret : Bool} :
      r.stage k = .outside → request.answered numeric = some ret →
      Next get numeric r (.call k request draws) (r.finish k ret)
  | asks {k : Nat} {request : Request} {draws : List (Fin (randMax + 1))}
      {r' : Resolver T} :
      r.stage k = .outside → request.answered numeric = none →
      (r.found request).1.loop randMax k (request.obtains (r.found request).2) draws =
        some r' →
      Next get numeric r (.call k request draws) r'
  | fails {k : Nat} {call : Call} : r.stage k = .lookingUp call →
      Next get numeric r (.answer k none) (r.setStage k (.lookedUp call false))
  | succeeds {k : Nat} {call : Call} {c : Cache T} {res : List T} :
      r.stage k = .lookingUp call → r.entry call = some c →
      Next get numeric r (.answer k (some res))
        ((r.setEntry call (c.set get res)).setStage k (.lookedUp call true))
  | relocks {k : Nat} {call : Call} {c : Cache T} {ret : Bool} {now : ℤ}
      {draws : List (Fin (randMax + 1))} {r' : Resolver T} :
      r.stage k = .lookedUp call ret → r.entry call = some c →
      (r.relocked k call c ret now).loop randMax k call draws = some r' →
      Next get numeric r (.relock k now draws) r'
  | stirs {k : Nat} {call : Call} : r.stage k = .waiting call →
      Next get numeric r (.stir k) (r.setStage k (.woken call))
  | waits {k : Nat} {call : Call} {c : Cache T} {draws : List (Fin (randMax + 1))} :
      r.stage k = .woken call → r.entry call = some c → c.resolving = true →
      Next get numeric r (.wake k draws) (r.setStage k (.waiting call))
  | wakes {k : Nat} {call : Call} {draws : List (Fin (randMax + 1))} {r' : Resolver T} :
      r.stage k = .woken call → r.loop randMax k call draws = some r' →
      Next get numeric r (.wake k draws) r'
  | clears : Next get numeric r .clear r.clear

/-- **ONE STEP** does one of these. -/
theorem next_cases {l : Label T randMax} (h : r.next get numeric l = some r') :
    Next get numeric r l r' := by
  cases l with
  | call k request draws =>
      rw [Resolver.next] at h
      split at h
      · next hk =>
          rw [Resolver.doResolve] at h
          split at h
          · next hanswered =>
              obtain rfl := Option.some.inj h
              exact .answered hk hanswered
          · next hanswered => exact .asks hk hanswered h
      · cases h
  | answer k res =>
      rw [Resolver.next] at h
      split at h
      · next call hk =>
          cases res with
          | none =>
              obtain rfl := Option.some.inj h
              exact .fails hk
          | some res =>
              obtain ⟨c, hc, rfl⟩ := Option.map_eq_some_iff.mp h
              exact .succeeds hk hc
      · cases h
  | relock k now draws =>
      rw [Resolver.next] at h
      split at h
      · next call ret hk =>
          rw [Resolver.relock] at h
          split at h
          · cases h
          · next c hc => exact .relocks hk hc h
      · cases h
  | stir k =>
      rw [Resolver.next] at h
      split at h
      · next call hk =>
          obtain rfl := Option.some.inj h
          exact .stirs hk
      · cases h
  | wake k draws =>
      rw [Resolver.next] at h
      split at h
      · next call hk =>
          rw [Resolver.wake] at h
          split at h
          · cases h
          · next c hc =>
              split at h
              · next hmark =>
                  obtain rfl := Option.some.inj h
                  exact .waits hk hc hmark
              · exact .wakes hk h
      · cases h
  | clear =>
      obtain rfl := Option.some.inj h
      exact .clears

-- ── The mark ─────────────────────────────────────────────────────────────────

/-- The entry that a call looks up. -/
def Stage.looks : Stage → Option Call
  | .lookingUp call => some call
  | .lookedUp call _ => some call
  | _ => none

/-- What is looked up is marked and not fresh, by one call at a time, and others wait
    only for what is marked. -/
structure Marked (r : Resolver T) : Prop where
  looks : ∀ k call, (r.stage k).looks = some call →
    ∃ c, r.entry call = some c ∧ c.resolving = true ∧ Stale c call
  waits : ∀ k call, r.stage k = .waiting call →
    ∃ c, r.entry call = some c ∧ c.resolving = true
  one : ∀ k j call call', (r.stage k).looks = some call → (r.stage j).looks = some call' →
    call.Shares call' → k = j

namespace Marked

theorem start (now : ℤ) : Marked (newResolver now : Resolver T) where
  looks _ _ h := nomatch h
  waits _ _ h := nomatch h
  one _ _ _ _ h := nomatch h

theorem note {e : Event} (h : Marked r) : Marked (r.note e) := ⟨h.looks, h.waits, h.one⟩

/-- The mark and the time stay as they are where there is a mark. -/
theorem keep (h : Marked r) (hstage : r'.stage = r.stage)
    (hentry : ∀ call c, r.entry call = some c → c.resolving = true →
      ∃ c', r'.entry call = some c' ∧ c'.resolving = true ∧ c'.resolved = c.resolved) :
    Marked r' := by
  refine ⟨fun k call hk => ?_, fun k call hk => ?_, fun k j call call' hk hj => ?_⟩
  · rw [hstage] at hk
    obtain ⟨c, hc, hmark, hstale⟩ := h.looks k call hk
    obtain ⟨c', hc', hmark', hsame⟩ := hentry call c hc hmark
    refine ⟨c', hc', hmark', ?_⟩
    rw [Stale, hsame]
    exact hstale
  · rw [hstage] at hk
    obtain ⟨c, hc, hmark⟩ := h.waits k call hk
    obtain ⟨c', hc', hmark', -⟩ := hentry call c hc hmark
    exact ⟨c', hc', hmark'⟩
  · rw [hstage] at hk hj
    exact h.one k j call call' hk hj

/-- Another entry, with the mark and the time of the one before. -/
theorem setEntry (h : Marked r) (hc : r.entry call = some c)
    (hmark : c'.resolving = c.resolving) (htime : c'.resolved = c.resolved) :
    Marked (r.setEntry call c') := by
  refine h.keep rfl fun call' d hd hresolving => ?_
  rcases Resolver.entry_setEntry (c := c') ⟨c, hc⟩ hd with ⟨-, hentry, hsame⟩ | ⟨-, hentry⟩
  · rw [hc] at hsame
    obtain rfl := Option.some.inj hsame
    exact ⟨c', hentry, hmark.trans hresolving, htime⟩
  · exact ⟨d, hentry, hresolving, rfl⟩

/-- A call goes somewhere where it does not look anything up. -/
theorem setStage (h : Marked r) (hlooks : stage.looks = none)
    (hwaits : ∀ call, stage = .waiting call →
      ∃ c, r.entry call = some c ∧ c.resolving = true) :
    Marked (r.setStage k stage) := by
  have hstage : ∀ j call, ((r.setStage k stage).stage j).looks = some call →
      (r.stage j).looks = some call := by
    intro j call hj
    rw [Resolver.setStage] at hj
    dsimp only at hj
    rw [Function.update_apply] at hj
    split at hj
    · rw [hlooks] at hj
      cases hj
    · exact hj
  refine ⟨fun j call hj => h.looks j call (hstage j call hj), fun j call hj => ?_,
    fun i j call call' hi hj => h.one i j call call' (hstage i call hi) (hstage j call' hj)⟩
  rw [Resolver.setStage] at hj
  dsimp only at hj
  rw [Function.update_apply] at hj
  split at hj
  · exact hwaits call hj
  · exact h.waits j call hj

theorem finish {ret : Bool} (h : Marked r) : Marked (r.finish k ret) := by
  have hset : Marked (r.setStage k (.returned ret)) := h.setStage rfl fun _ h => nomatch h
  exact hset.note

theorem outside (h : Marked r) : Marked (r.setStage k .outside) :=
  h.setStage rfl fun _ h => nomatch h

/-- A call begins to look up what nothing marks. -/
theorem lookup (h : Marked r) (hc : r.entry call = some c) (hmark : c.resolving = false)
    (hstale : Stale c call) :
    Marked ((r.setEntry call { c with resolving := true }).setStage k (.lookingUp call)) := by
  have hother : ∀ call', (∃ d, r.entry call' = some d ∧ d.resolving = true) →
      ¬call.Shares call' := by
    rintro call' ⟨d, hd, hmarked⟩ hshares
    rcases Resolver.entry_setEntry (c := c) ⟨c, hc⟩ hd with ⟨-, -, hsame⟩ | ⟨hnot, -⟩
    · rw [hc] at hsame
      obtain rfl := Option.some.inj hsame
      rw [hmark] at hmarked
      cases hmarked
    · exact hnot hshares
  have hstill : ∀ call' d, r.entry call' = some d → d.resolving = true →
      (r.setEntry call { c with resolving := true }).entry call' = some d := by
    intro call' d hd hmarked
    rcases Resolver.entry_setEntry (c := { c with resolving := true }) ⟨c, hc⟩ hd with
      ⟨hshares, -, -⟩ | ⟨-, hentry⟩
    · exact absurd hshares (hother call' ⟨d, hd, hmarked⟩)
    · exact hentry
  have hstage : ∀ j, ((r.setEntry call { c with resolving := true }).setStage k
      (.lookingUp call)).stage j = if j = k then .lookingUp call else r.stage j := by
    intro j
    rw [Resolver.setStage]
    exact Function.update_apply _ _ _ _
  refine ⟨fun j call' hj => ?_, fun j call' hj => ?_, fun i j call₁ call₂ hi hj hshares => ?_⟩
  · rw [hstage] at hj
    split at hj
    · obtain rfl := Option.some.inj hj
      exact ⟨_, Resolver.entry_setEntry_self, rfl, hstale⟩
    · obtain ⟨d, hd, hmarked, hstale'⟩ := h.looks j call' hj
      exact ⟨d, hstill call' d hd hmarked, hmarked, hstale'⟩
  · rw [hstage] at hj
    split at hj
    · cases hj
    · obtain ⟨d, hd, hmarked⟩ := h.waits j call' hj
      exact ⟨d, hstill call' d hd hmarked, hmarked⟩
  · rw [hstage] at hi hj
    have hmarked : ∀ {i call'}, (r.stage i).looks = some call' → ¬call.Shares call' := by
      intro i call' hi
      obtain ⟨d, hd, hmarked, -⟩ := h.looks i call' hi
      exact hother call' ⟨d, hd, hmarked⟩
    split at hi
    · next hik =>
        obtain rfl := Option.some.inj hi
        split at hj
        · next hjk => exact hik.trans hjk.symm
        · exact absurd hshares (hmarked hj)
    · split at hj
      · obtain rfl := Option.some.inj hj
        refine absurd ⟨?_, ?_, ?_⟩ (hmarked hi)
        · exact hshares.1.symm
        · exact hshares.2.1.symm
        · exact hshares.2.2.symm
      · exact h.one i j call₁ call₂ hi hj hshares

/-- The loop keeps the marks, wherever the call was before. -/
theorem loop (h : Marked (r.setStage k .outside))
    (hloop : r.loop randMax k call draws = some r') : Marked r' := by
  have hset : ∀ (s : Resolver T) stage, s.setStage k stage =
      (s.setStage k .outside).setStage k stage := by
    intro s stage
    rw [Resolver.setStage, Resolver.setStage, Resolver.setStage, Function.update_idem]
  have hfinish : ∀ (s : Resolver T) ret, s.finish k ret =
      (s.setStage k .outside).finish k ret := by
    intro s ret
    rw [Resolver.finish, Resolver.finish, hset]
  obtain ⟨c, hc, hcases⟩ := Resolver.loop_cases hloop
  have hentry : (r.setStage k .outside).entry call = some c := hc
  rcases hcases with ⟨hmark, rfl⟩ | ⟨hstale, hmark, rfl⟩ | ⟨-, rfl⟩ | ⟨-, i, rfl⟩
  · rw [hset]
    refine h.setStage rfl ?_
    rintro _ ⟨⟩
    exact ⟨c, hentry, hmark⟩
  · rw [hset]
    exact (h.lookup hentry hmark hstale).note
  · rw [hfinish]
    exact h.finish
  · have hpicked : Marked ((r.setStage k .outside).setEntry call { c with current := i }) :=
      h.setEntry hentry rfl rfl
    rw [hfinish]
    exact hpicked.finish

theorem aging (h : Marked r) (now : ℤ) : Marked (r.aging now) := by
  refine h.keep ?_ fun call c hc hmark => ⟨c, Resolver.entry_aging hc hmark, hmark, rfl⟩
  rw [Resolver.aging]
  split
  · rfl
  · rfl

theorem findOrInsert (h : Marked r) (family : Family) (host : Text) :
    Marked (r.findOrInsert family host).1 := by
  refine h.keep ?_ fun call c hc hmark => ⟨c, Resolver.entry_findOrInsert hc, hmark, rfl⟩
  rw [Resolver.findOrInsert]
  split
  · rfl
  · rfl

theorem clear (h : Marked r) : Marked r.clear :=
  h.keep rfl fun _ c hc hmark =>
    ⟨c, Resolver.entry_remove hc (by rw [Resolver.cleared, hmark]; rfl), hmark, rfl⟩

/-- What a call looked up stays marked until it locks again. -/
theorem lookedUp {ret : Bool} (h : Marked r) (hk : r.stage k = .lookingUp call) :
    Marked (r.setStage k (.lookedUp call ret)) := by
  have hlooks : ∀ j, ((r.setStage k (.lookedUp call ret)).stage j).looks =
      (r.stage j).looks := by
    intro j
    rw [Resolver.setStage]
    dsimp only
    rw [Function.update_apply]
    split
    · next hj => rw [hj, hk]; rfl
    · rfl
  refine ⟨fun j call' hj => ?_, fun j call' hj => ?_, fun i j call₁ call₂ hi hj => ?_⟩
  · rw [hlooks] at hj
    exact h.looks j call' hj
  · rw [Resolver.setStage] at hj
    dsimp only at hj
    rw [Function.update_apply] at hj
    split at hj
    · cases hj
    · exact h.waits j call' hj
  · rw [hlooks] at hi hj
    exact h.one i j call₁ call₂ hi hj

/-- And it does so if other addresses are found. -/
theorem set {res : List T} (h : Marked r) (hc : r.entry call = some c) :
    Marked (r.setEntry call (c.set get res)) := by
  rcases set_eq get c res with heq | heq
  · rw [heq]
    exact h.setEntry hc rfl rfl
  · rw [heq]
    exact h.setEntry hc rfl rfl

/-- The mark is taken away, and nobody waits any more. -/
theorem unmark (h : Marked r) (hk : (r.stage k).looks = some call)
    (hc : ∃ c, r.entry call = some c) (c' : Cache T) :
    Marked (((r.setEntry call c').wakeAll).setStage k .outside) := by
  have hstage : ∀ j call', ((((r.setEntry call c').wakeAll).setStage k
      .outside).stage j).looks = some call' → j ≠ k ∧ (r.stage j).looks = some call' := by
    intro j call' hj
    rw [Resolver.setStage, Resolver.wakeAll] at hj
    dsimp only at hj
    rw [Function.update_apply] at hj
    split at hj
    · cases hj
    · next hjk =>
        refine ⟨hjk, ?_⟩
        cases hs : (r.setEntry call c').stage j with
        | waiting call =>
            rw [hs] at hj
            cases hj
        | outside | lookingUp call | lookedUp call ret | woken call | returned ret =>
            rw [hs] at hj
            exact (congrArg Stage.looks hs).trans hj
  refine ⟨fun j call' hj => ?_, fun j call' hj => ?_, fun i j call₁ call₂ hi hj => ?_⟩
  · obtain ⟨hjk, hj⟩ := hstage j call' hj
    obtain ⟨d, hd, hmark, hstale⟩ := h.looks j call' hj
    rcases Resolver.entry_setEntry (c := c') hc hd with ⟨hshares, -, -⟩ | ⟨-, hentry⟩
    · exact absurd (h.one k j call call' hk hj hshares).symm hjk
    · exact ⟨d, hentry, hmark, hstale⟩
  · rw [Resolver.setStage, Resolver.wakeAll] at hj
    dsimp only at hj
    rw [Function.update_apply] at hj
    split at hj
    · cases hj
    · cases hs : (r.setEntry call c').stage j with
      | waiting call | outside | lookingUp call | lookedUp call ret | woken call
      | returned ret =>
          rw [hs] at hj
          cases hj
  · exact h.one i j call₁ call₂ (hstage i call₁ hi).2 (hstage j call₂ hj).2

/-- **ONE STEP.** -/
theorem next {l : Label T randMax} (h : Marked r)
    (hnext : r.next get numeric l = some r') : Marked r' := by
  cases next_cases hnext with
  | answered hk hanswered => exact h.finish
  | @asks k request draws _ hk hanswered hloop =>
      exact loop ((h.aging request.now).findOrInsert request.family _).outside hloop
  | fails hk => exact h.lookedUp hk
  | succeeds hk hc => exact (h.set hc).lookedUp hk
  | relocks hk hc hloop =>
      refine loop ?_ hloop
      have hlooks : (r.stage _).looks = some _ := congrArg Stage.looks hk
      exact (h.unmark hlooks ⟨_, hc⟩ _).note
  | stirs hk => exact h.setStage rfl fun _ h => nomatch h
  | waits hk hc hmark =>
      refine h.setStage rfl ?_
      rintro _ ⟨⟩
      exact ⟨_, hc, hmark⟩
  | wakes hk hloop => exact loop h.outside hloop
  | clears => exact h.clear

end Marked

theorem marked_of_reachable (h : Reachable (resolver get numeric randMax) r) : Marked r := by
  refine h.invariant ?_ fun r l r' _ hmarked hstep => hmarked.next hstep
  rintro _ ⟨now, rfl⟩
  exact Marked.start now

-- ── What calls do ────────────────────────────────────────────────────────────

/-- Where a call goes from the lock, and what it does then. -/
inductive Goes (k : Nat) : Stage → List Event → Prop where
  | waits (d : Call) : Goes k (.waiting d) []
  | looks (d : Call) : Goes k (.lookingUp d) [.lookup k]
  | returns (ret : Bool) : Goes k (.returned ret) [.returned k ret]

/-- From where to where a call goes, and what it does on the way. -/
inductive Move (k : Nat) : Stage → Stage → List Event → Prop where
  | enters {s' : Stage} {es : List Event} : Goes k s' es → Move k .outside s' es
  | answered (d : Call) (ret : Bool) : Move k (.lookingUp d) (.lookedUp d ret) []
  | succeeds {s' : Stage} {es : List Event} (d : Call) :
      Goes k s' es → Move k (.lookedUp d true) s' (.succeeded k :: es)
  | fails (d : Call) : Move k (.lookedUp d false) (.lookingUp d) [.failed k, .lookup k]
  | stirs (d : Call) : Move k (.waiting d) (.woken d) []
  | wakes {s' : Stage} {es : List Event} (d : Call) : Goes k s' es → Move k (.woken d) s' es

/-- A call that does nothing may be woken. -/
def Still (s s' : Stage) : Prop := s' = s ∨ ∃ call, s = .waiting call ∧ s' = .woken call

/-- One call moves, and does what it does. -/
def Moves (r : Resolver T) (k : Nat) (r' : Resolver T) : Prop :=
  ∃ es, Move k (r.stage k) (r'.stage k) es ∧ r'.log = r.log ++ es ∧
    ∀ j, j ≠ k → Still (r.stage j) (r'.stage j)

theorem Resolver.stage_setStage_self (r : Resolver T) (k : Nat) (stage : Stage) :
    (r.setStage k stage).stage k = stage := by
  rw [setStage]
  exact Function.update_self k stage r.stage

theorem Resolver.stage_setStage_of_ne (r : Resolver T) (stage : Stage) (h : j ≠ k) :
    (r.setStage k stage).stage j = r.stage j := by
  rw [setStage]
  exact Function.update_of_ne h stage r.stage

@[simp] theorem Resolver.stage_note (r : Resolver T) (e : Event) :
    (r.note e).stage = r.stage := rfl

theorem Resolver.stage_finish_self (r : Resolver T) (k : Nat) (ret : Bool) :
    (r.finish k ret).stage k = .returned ret := stage_setStage_self r k _

/-- Where the loop goes. -/
theorem Resolver.loop_goes (h : r.loop randMax k call draws = some r') :
    ∃ es, Goes k (r'.stage k) es ∧ r'.log = r.log ++ es ∧
      ∀ j, j ≠ k → r'.stage j = r.stage j := by
  obtain ⟨c, -, ⟨-, rfl⟩ | ⟨-, -, rfl⟩ | ⟨-, rfl⟩ | ⟨-, i, rfl⟩⟩ := Resolver.loop_cases h
  · refine ⟨[], ?_, (List.append_nil _).symm, fun j => stage_setStage_of_ne r _⟩
    rw [stage_setStage_self]
    exact .waits call
  · refine ⟨[.lookup k], ?_, rfl, fun j => stage_setStage_of_ne (r.setEntry call _) _⟩
    rw [stage_note, stage_setStage_self]
    exact .looks call
  · refine ⟨[.returned k false], ?_, rfl, fun j => stage_setStage_of_ne r _⟩
    rw [stage_finish_self]
    exact .returns false
  · refine ⟨[.returned k true], ?_, rfl, fun j => stage_setStage_of_ne (r.setEntry call _) _⟩
    rw [stage_finish_self]
    exact .returns true

theorem still_wakeAll (r : Resolver T) (j : Nat) : Still (r.stage j) (r.wakeAll.stage j) := by
  rw [Resolver.wakeAll]
  dsimp only
  cases r.stage j with
  | waiting call => exact .inr ⟨call, rfl, rfl⟩
  | outside | lookingUp call | lookedUp call ret | woken call | returned ret => exact .inl rfl

/-- Neither `Aging` nor `insert` has to do with the calls. -/
theorem found_calls (r : Resolver T) (request : Request) :
    (r.found request).1.stage = r.stage ∧ (r.found request).1.log = r.log := by
  have haging : (r.aging request.now).stage = r.stage ∧
      (r.aging request.now).log = r.log := by
    rw [Resolver.aging]
    split
    · exact ⟨rfl, rfl⟩
    · exact ⟨rfl, rfl⟩
  rw [Resolver.found, Resolver.findOrInsert]
  split
  · exact haging
  · exact haging

/-- **A LOOKUP THAT FAILED IS REPEATED**: nothing but the mark has changed. -/
theorem relocked_failed {now : ℤ} (hm : Marked r) (hk : r.stage k = .lookedUp call false)
    (hc : r.entry call = some c)
    (h : (r.relocked k call c false now).loop randMax k call draws = some r') :
    r'.stage k = .lookingUp call ∧ r'.log = r.log ++ [.failed k, .lookup k] := by
  obtain ⟨c', hc', -, hstale⟩ := hm.looks k call (by rw [hk]; rfl)
  obtain rfl := Option.some.inj (hc.symm.trans hc')
  obtain ⟨d, hd, hcases⟩ := Resolver.loop_cases h
  have hsame : d = c.relocked false now :=
    Option.some.inj (hd.symm.trans Resolver.entry_setEntry_self)
  rcases hcases with ⟨hmark, -⟩ | ⟨-, -, rfl⟩ | ⟨hfresh, -⟩ | ⟨hfresh, -⟩
  · rw [hsame] at hmark
    cases hmark
  · refine ⟨Resolver.stage_setStage_self _ k _, ?_⟩
    exact List.append_assoc r.log [Event.failed k] [Event.lookup k]
  · rw [hsame] at hfresh
    exact absurd hstale hfresh
  · rw [hsame] at hfresh
    exact absurd hstale hfresh

/-- A call goes from one stage to another, without an event. -/
theorem moves_setStage (s : Resolver T) (hstage : s.stage = r.stage) (hlog : s.log = r.log)
    (h : Move k (r.stage k) stage []) : Moves r k (s.setStage k stage) := by
  refine ⟨[], ?_, hlog.trans (List.append_nil _).symm, fun j hj => .inl ?_⟩
  · rw [Resolver.stage_setStage_self]
    exact h
  · rw [Resolver.stage_setStage_of_ne s stage hj, hstage]

/-- **WHAT A STEP DOES**: nothing to the calls, or one of them moves. -/
theorem next_moves {l : Label T randMax} (hm : Marked r)
    (h : r.next get numeric l = some r') :
    r'.stage = r.stage ∧ r'.log = r.log ∨ ∃ k, Moves r k r' := by
  cases next_cases h with
  | @answered k request draws ret hk hanswered =>
      refine .inr ⟨k, [.returned k ret], ?_, rfl, fun j hj =>
        .inl (Resolver.stage_setStage_of_ne r _ hj)⟩
      rw [hk, Resolver.stage_finish_self]
      exact .enters (.returns ret)
  | @asks k request draws _ hk hanswered hloop =>
      obtain ⟨hstage, hlog⟩ := found_calls r request
      obtain ⟨es, hgoes, hes, hothers⟩ := Resolver.loop_goes hloop
      refine .inr ⟨k, es, ?_, hes.trans (congrArg (· ++ es) hlog), fun j hj =>
        .inl ((hothers j hj).trans (congrFun hstage j))⟩
      rw [hk]
      exact .enters hgoes
  | @fails k call hk =>
      refine .inr ⟨k, moves_setStage r rfl rfl ?_⟩
      rw [hk]
      exact .answered call false
  | @succeeds k call c res hk hc =>
      refine .inr ⟨k, moves_setStage _ rfl rfl ?_⟩
      rw [hk]
      exact .answered call true
  | @relocks k call c ret now draws _ hk hc hloop =>
      obtain ⟨es, hgoes, hes, hothers⟩ := Resolver.loop_goes hloop
      have hstill : ∀ j, j ≠ k → Still (r.stage j) (r'.stage j) := by
        intro j hj
        rw [hothers j hj]
        exact still_wakeAll r j
      cases ret with
      | false =>
          obtain ⟨hstage, hlog⟩ := relocked_failed hm hk hc hloop
          refine .inr ⟨k, [.failed k, .lookup k], ?_, hlog, hstill⟩
          rw [hk, hstage]
          exact .fails call
      | true =>
          refine .inr ⟨k, .succeeded k :: es, ?_, ?_, hstill⟩
          · rw [hk]
            exact .succeeds call hgoes
          · exact hes.trans (List.append_assoc r.log [Event.succeeded k] es)
  | @stirs k call hk =>
      refine .inr ⟨k, moves_setStage r rfl rfl ?_⟩
      rw [hk]
      exact .stirs call
  | @waits k call c draws hk hc hmark =>
      refine .inr ⟨k, moves_setStage r rfl rfl ?_⟩
      rw [hk]
      exact .wakes call (.waits call)
  | @wakes k call draws _ hk hloop =>
      obtain ⟨es, hgoes, hes, hothers⟩ := Resolver.loop_goes hloop
      refine .inr ⟨k, es, ?_, hes, fun j hj => .inl (hothers j hj)⟩
      rw [hk]
      exact .wakes call hgoes
  | clears => exact .inl ⟨rfl, rfl⟩

end FlinterResolver
