import Flinter.BindingsProofs
import Flinter.RunProofs
import Flinter.SplittingProofs

/-! # The environment of a request

    `EmulatedPutenv` replaces the string of a key, or makes an array with a string
    more.  That one has a word for a NULL behind the new string, but none is stored
    there: what the word holds is whatever the allocation happens to hold.

    As long as each key is there already, the array is what an environment should be
    (`environment_emulated`). -/

namespace FlinterDispatcher

open BindingLists Runs

abbrev Text := List Char

/-- A word of the array: a string, NULL, or something else. -/
inductive Word
  | str (s : Text)
  | null
  | junk

/-- `envp`, as far as it is allocated. -/
abbrev Envp := List Word

/-- A key has no `=`. -/
structure Key where
  name : Text
  plain : ∀ c ∈ name, (c != '=') = true
deriving DecidableEq

-- ── The code ─────────────────────────────────────────────────────────────────

-- `none` is what is undefined: to look at what is no string, or behind the array.

/-- The strings up to the NULL. -/
def strings : Envp → Option (List Text)
  | .str s :: rest => (strings rest).map (s :: ·)
  | .null :: _ => some []
  | _ => none

/-- `strncmp` is 0, if there are `n` characters in the second string. -/
def strncmpEq (s t : Text) (n : Nat) : Bool := s.take n == t.take n

/-- `EmulatedPutenv`: the new string. -/
def newString (key value : Text) : Text := key ++ '=' :: value

/-- `EmulatedPutenv`: the array with the string in the place of that of the key, if there
    is one. -/
def replace (kl : Nat) (n : Text) : Envp → Option (Option Envp)
  | .str s :: rest =>
      if strncmpEq s n (kl + 1) then some (some (.str n :: rest))
      else (replace kl n rest).map fun found => found.map (.str s :: ·)
  | .null :: _ => some none
  | _ => none

/-- `EmulatedPutenv`, what it returns and the array, whether `malloc` works, and what the
    last word of a new array holds. -/
def EmulatedPutenv (stringAllocated envpAllocated : Bool) (fresh : Word) (key value : Text)
    (envp : Envp) : Option (Int × Envp) :=
  if !stringAllocated then some (-1, envp)
  else
    match replace key.length (newString key value) envp with
    | none => none
    | some (some replaced) => some (0, replaced)
    | some none =>
        if !envpAllocated then some (-1, envp)
        else
          (strings envp).map fun copied =>
            (0, copied.map .str ++ [.str (newString key value), fresh])

/-- `EmulatedGetenv`, what it returns, where `FCGX_GetParam` finds a value in strings, and
    whether `strdup` works. -/
def EmulatedGetenv (FCGX_GetParam : Text → List Text → Option Text) (duplicated : Bool)
    (key : Text) (envp : Envp) : Option (Option Text) :=
  (strings envp).map fun params =>
    (FCGX_GetParam key params).bind fun value => if duplicated then some value else none

/-- `EmulatedIterenv`, what it returns, and the key and the value if there are any. -/
def EmulatedIterenv (keyDuplicated valueDuplicated : Bool) (i : Nat) (envp : Envp) :
    Option (Int × Option (Text × Text)) :=
  match envp[i]? with
  | some (.str s) =>
      match s.dropWhile (· != '=') with
      | [] => some (0, none)
      | _ :: value =>
          if !keyDuplicated then some (-1, none)
          else if !valueDuplicated then some (-1, none)
          else some (0, some (s.takeWhile (· != '='), value))
  | some .null => some (0, none)
  | _ => none

-- ── Environments ─────────────────────────────────────────────────────────────

/-- The string of a binding. -/
def line (e : Key × Text) : Text := newString e.1.name e.2

/-- An array of strings up to a NULL, with some words behind it. -/
def envpOf (es : List (Key × Text)) (spare : Envp) : Envp :=
  es.map (fun e => .str (line e)) ++ .null :: spare

variable {es : List (Key × Text)} {e : Key × Text} {spare : Envp} {key : Key} {value : Text}
  {fresh : Word}

theorem strings_envpOf : strings (envpOf es spare) = some (es.map line) := by
  induction es with
  | nil => rfl
  | cons e es ih =>
      rw [envpOf, List.map_cons, List.cons_append, strings, ← envpOf, ih]
      rfl

/-- What is before the `=` is the key, and the value is what is behind it. -/
theorem split_line (e : Key × Text) :
    (line e).takeWhile (· != '=') = e.1.name ∧ (line e).dropWhile (· != '=') = '=' :: e.2 := by
  have hstop : ∀ c ∈ ('=' :: e.2).head?, (c != '=') = false := by
    intro c hc
    obtain rfl := Option.some.inj hc
    rfl
  exact ⟨Splitting.takeWhile_append_stop e.1.plain hstop,
    Splitting.dropWhile_append_stop e.1.plain hstop⟩

theorem take_newString (key : Key) (value : Text) :
    (newString key.name value).take (key.name.length + 1) = key.name ++ ['='] := by
  rw [newString, List.take_length_add_append]
  rfl

/-- `strncmp` looks at the key and the `=`, so it takes no key for a longer one. -/
theorem strncmpEq_line : strncmpEq (line e) (newString key.name value) (key.name.length + 1) =
    decide (e.1 = key) := by
  rw [strncmpEq, take_newString, Bool.beq_eq_decide_eq, decide_eq_decide]
  constructor
  · intro h
    have hline := List.take_append_drop (key.name.length + 1) (line e)
    rw [h, List.append_assoc] at hline
    have hname : (line e).takeWhile (· != '=') = key.name := by
      rw [← hline]
      exact Splitting.takeWhile_append_stop key.plain fun c hc => by
        obtain rfl := Option.some.inj hc
        rfl
    rw [(split_line e).1] at hname
    obtain ⟨⟨name, plain⟩, v⟩ := e
    obtain rfl : name = key.name := hname
    rfl
  · rintro rfl
    exact take_newString e.1 e.2

/-- `EmulatedPutenv`: the string of the key, if there is one, is replaced. -/
theorem replace_envpOf : replace key.name.length (newString key.name value) (envpOf es spare) =
    some (if key ∈ es.map Prod.fst then some (envpOf (rebind key value es) spare) else none) := by
  induction es with
  | nil => rfl
  | cons e es ih =>
      rw [envpOf, List.map_cons, List.cons_append, ← envpOf, replace, strncmpEq_line, ih, rebind]
      by_cases he : e.1 = key
      · have hmem : key ∈ (e :: es).map Prod.fst := List.mem_map.mpr ⟨e, List.mem_cons_self, he⟩
        rw [if_pos (decide_eq_true he), if_pos he, if_pos hmem]
        rfl
      · have hmem : key ∈ (e :: es).map Prod.fst ↔ key ∈ es.map Prod.fst := by
          rw [List.map_cons, List.mem_cons, or_iff_right fun h => he h.symm]
        rw [if_neg (by rw [decide_eq_true_eq]; exact he), if_neg he, if_congr hmem rfl rfl]
        split <;> rfl

-- ── The run ──────────────────────────────────────────────────────────────────

/-- What the request does. -/
inductive Call
  | put (key : Key) (value : Text) (fresh : Word)
  | get (key : Key)

/-- The array, and what an environment would bind the keys to: each put of a key binds
    it, and nothing else changes. -/
def environment : System (Envp × (Key → Option Text)) Call where
  init s := ∃ (m : Bindings Key Text) (spare : Envp), s = (envpOf m.entries spare, m.lookup)
  step s l s' := match l with
    | .put key value fresh =>
        EmulatedPutenv true true fresh key.name value s.1 = some (0, s'.1) ∧
          s'.2 = Function.update s.2 key (some value)
    | .get _ => s' = s

/-- What `FCGX_GetParam` does: it finds what a key is bound to, or nothing. -/
def FindsParams (FCGX_GetParam : Text → List Text → Option Text) : Prop :=
  ∀ (m : Bindings Key Text) (key : Key),
    FCGX_GetParam key.name (m.entries.map line) = m.lookup key

/-- The array ends with a NULL, each key is found to be bound to its value, and the
    indices from 0 to the end visit the bindings, each key once. -/
structure Emulates (FCGX_GetParam : Text → List Text → Option Text) (envp : Envp)
    (bound : Key → Option Text) : Prop where
  terminated : ∃ (params : List Text) (spare : Envp), envp = params.map .str ++ .null :: spare
  gets : ∀ key, EmulatedGetenv FCGX_GetParam true key.name envp = some (bound key)
  iterates : ∃ visited : List (Key × Text),
    (∀ (i : Nat) (e : Key × Text), visited[i]? = some e →
      EmulatedIterenv true true i envp = some (0, some (e.1.name, e.2))) ∧
    EmulatedIterenv true true visited.length envp = some (0, none) ∧
    (visited.map Prod.fst).Nodup ∧
    ∀ key value, bound key = some value ↔ (key, value) ∈ visited

/-- The key is there already, or the last word of a new array happens to be NULL. -/
def Meets (s : Envp × (Key → Option Text)) : Call → Prop
  | .put key _ fresh => s.2 key ≠ none ∨ fresh = .null
  | .get _ => True

variable {FCGX_GetParam : Text → List Text → Option Text} {m : Bindings Key Text}

theorem getenv_envpOf (hparams : FindsParams FCGX_GetParam) :
    EmulatedGetenv FCGX_GetParam true key.name (envpOf m.entries spare) = some (m.lookup key) := by
  rw [EmulatedGetenv, strings_envpOf, Option.map_some, hparams]
  cases m.lookup key <;> rfl

theorem iterenv_envpOf {i : Nat} (h : es[i]? = some e) :
    EmulatedIterenv true true i (envpOf es spare) = some (0, some (e.1.name, e.2)) := by
  have hword : (envpOf es spare)[i]? = some (.str (line e)) := by
    obtain ⟨hi, -⟩ := List.getElem?_eq_some_iff.mp h
    rw [envpOf, List.getElem?_append_left (by rw [List.length_map]; exact hi), List.getElem?_map, h]
    rfl
  rw [EmulatedIterenv, hword]
  dsimp only
  rw [(split_line e).2, (split_line e).1]
  rfl

theorem iterenv_end : EmulatedIterenv true true es.length (envpOf es spare) = some (0, none) := by
  have hword : (envpOf es spare)[es.length]? = some .null := by
    rw [envpOf, List.getElem?_append_right (by rw [List.length_map]), List.length_map, Nat.sub_self]
    rfl
  rw [EmulatedIterenv, hword]

/-- An array that is made of bindings emulates them. -/
theorem emulates_envpOf (hparams : FindsParams FCGX_GetParam) :
    Emulates FCGX_GetParam (envpOf m.entries spare) m.lookup where
  terminated := ⟨m.entries.map line, spare, by rw [envpOf, List.map_map]; rfl⟩
  gets _ := getenv_envpOf hparams
  iterates := ⟨m.entries, fun _ _ => iterenv_envpOf, iterenv_end, m.distinct,
    fun _ _ => Bindings.lookup_eq_some_iff⟩

/-- What is put for a key that is there. -/
theorem putenv_bound (h : m.lookup key ≠ none) :
    EmulatedPutenv true true fresh key.name value (envpOf m.entries spare) =
      some (0, envpOf (m.bind key value).entries spare) := by
  rw [EmulatedPutenv, replace_envpOf, if_pos (Bindings.lookup_ne_none_iff.mp h)]
  rfl

/-- What is put for a new key. -/
theorem putenv_new (h : m.lookup key = none) :
    EmulatedPutenv true true fresh key.name value (envpOf m.entries spare) =
      some (0, (m.bind key value).entries.map (fun e => .str (line e)) ++ [fresh]) := by
  have hnew : key ∉ m.entries.map Prod.fst := fun hmem =>
    Bindings.lookup_ne_none_iff.mpr hmem h
  have hentries : (m.bind key value).entries = m.entries ++ [(key, value)] := rebind_of_notMem hnew
  rw [EmulatedPutenv, replace_envpOf, if_neg hnew, strings_envpOf, hentries]
  simp [line, Function.comp_def]

/-- Where the last word is NULL, the array ends with it. -/
theorem putenv_meets (value : Text) (spare : Envp) (h : m.lookup key ≠ none ∨ fresh = .null) :
    ∃ spare', EmulatedPutenv true true fresh key.name value (envpOf m.entries spare) =
      some (0, envpOf (m.bind key value).entries spare') := by
  by_cases hbound : m.lookup key = none
  · obtain rfl := h.resolve_left (not_not.mpr hbound)
    exact ⟨[], putenv_new hbound⟩
  · exact ⟨spare, putenv_bound hbound⟩

/-- Strings and something that is not NULL have no end. -/
theorem not_terminated (es : List (Key × Text)) (h : fresh ≠ .null) :
    ¬ ∃ (params : List Text) (spare : Envp), es.map (fun e => Word.str (line e)) ++ [fresh] =
      params.map .str ++ .null :: spare := by
  rintro ⟨params, spare, heq⟩
  have hmem : Word.null ∈ es.map (fun e => Word.str (line e)) ++ [fresh] := by
    rw [heq]
    exact List.mem_append_right _ List.mem_cons_self
  rcases List.mem_append.mp hmem with hstr | hfresh
  · obtain ⟨e, -, he⟩ := List.mem_map.mp hstr
    cases he
  · exact h (List.mem_singleton.mp hfresh).symm

/-- **AN ENVIRONMENT, AS LONG AS NO KEY IS NEW.**  In every run that puts no new key, the
    array binds the keys to what was put last, and can be gone through.  A put of a new
    key breaks it, unless the last word of the new array happens to be NULL. -/
theorem environment_emulated (hparams : FindsParams FCGX_GetParam) :
    ∀ s, Reachable (environment.restrict Meets) s →
      Emulates FCGX_GetParam s.1 s.2 ∧
      ∀ key value fresh, (∃ envp',
          EmulatedPutenv true true fresh key.name value s.1 = some (0, envp') ∧
            Emulates FCGX_GetParam envp' (Function.update s.2 key (some value))) ↔
        Meets s (.put key value fresh) := by
  have hmade : ∀ s, Reachable (environment.restrict Meets) s →
      ∃ (m : Bindings Key Text) (spare : Envp), s = (envpOf m.entries spare, m.lookup) := by
    intro s hs
    refine hs.invariant (I := fun s => ∃ (m : Bindings Key Text) (spare : Envp),
      s = (envpOf m.entries spare, m.lookup)) (fun _ h => h) ?_
    rintro _ l ⟨envp', bound'⟩ - ⟨m, spare, rfl⟩ ⟨hmeets, hstep⟩
    cases l with
    | get key => exact ⟨m, spare, hstep⟩
    | put key value fresh =>
        obtain ⟨hput, hbound⟩ := hstep
        obtain ⟨spare', heq⟩ := putenv_meets value spare hmeets
        have henvp : envp' = envpOf (m.bind key value).entries spare' :=
          (Prod.mk.inj (Option.some.inj (hput.symm.trans heq))).2
        refine ⟨m.bind key value, spare', Prod.ext henvp ?_⟩
        rw [Bindings.lookup_bind]
        exact hbound
  intro s hs
  obtain ⟨m, spare, rfl⟩ := hmade s hs
  refine ⟨emulates_envpOf hparams, fun key value fresh => ?_⟩
  constructor
  · rintro ⟨envp', hput, hemulates⟩
    by_contra hmeets
    obtain ⟨hnew, hfresh⟩ := not_or.mp hmeets
    rw [putenv_new (not_not.mp hnew)] at hput
    obtain rfl := (Prod.mk.inj (Option.some.inj hput)).2
    exact not_terminated _ hfresh hemulates.terminated
  · intro hmeets
    obtain ⟨spare', heq⟩ := putenv_meets value spare hmeets
    refine ⟨_, heq, ?_⟩
    rw [← Bindings.lookup_bind]
    exact emulates_envpOf hparams

-- ── Two puts ─────────────────────────────────────────────────────────────────

/-- `FCGX_GetParam`: the value behind the name and the `=` of the first string that
    begins so. -/
def firstParam (name : Text) (params : List Text) : Option Text :=
  (params.find? fun s => strncmpEq s (newString name []) (name.length + 1)).map
    fun s => s.drop (name.length + 1)

theorem firstParam_finds : FindsParams firstParam := by
  intro m key
  have hlist : ∀ es : List (Key × Text), firstParam key.name (es.map line) = es.lookup key := by
    intro es
    induction es with
    | nil => rfl
    | cons e es ih =>
        rw [firstParam, List.map_cons, List.find?_cons, strncmpEq_line]
        by_cases he : e.1 = key
        · obtain ⟨k, v⟩ := e
          obtain rfl : k = key := he
          rw [decide_eq_true rfl, List.lookup_cons_self, Option.map_some, line, newString,
            List.drop_length_add_append]
          rfl
        · rw [decide_eq_false he, lookup_cons_of_ne fun h => he h.symm, ← ih]
          rfl
  exact hlist m.entries

def keyA : Key := ⟨['A'], List.forall_mem_singleton.mpr rfl⟩

def boundA (value : Text) : Bindings Key Text := ⟨[(keyA, value)], List.nodup_singleton keyA⟩

/-- A key that is there is put. -/
theorem environment_emulated_put :
    Emulates firstParam (envpOf ((boundA ['1']).bind keyA ['2']).entries [])
      ((boundA ['1']).bind keyA ['2']).lookup := by
  have hbound : (boundA ['1']).lookup keyA ≠ none := by decide
  have hrun : Reachable (environment.restrict Meets)
      (envpOf ((boundA ['1']).bind keyA ['2']).entries [],
        ((boundA ['1']).bind keyA ['2']).lookup) :=
    .next (l := .put keyA ['2'] .junk) (.start ⟨boundA ['1'], [], rfl⟩)
      ⟨Or.inl hbound, putenv_bound hbound, Bindings.lookup_bind⟩
  exact (environment_emulated firstParam_finds _ hrun).1

/-- A new key is put, and the array has no end. -/
theorem new_key_unterminated : ¬ ∃ envp',
    EmulatedPutenv true true .junk keyA.name ['1'] (envpOf [] []) = some (0, envp') ∧
      Emulates firstParam envp' (Function.update (fun _ => none) keyA (some ['1'])) := by
  rintro ⟨envp', hput, hemulates⟩
  obtain rfl : [Word.str ['A', '=', '1'], .junk] = envp' :=
    (Prod.mk.inj (Option.some.inj hput)).2
  exact not_terminated [(keyA, ['1'])] (by rintro ⟨⟩) hemulates.terminated

end FlinterDispatcher
