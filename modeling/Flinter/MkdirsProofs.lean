import Flinter.SplittingProofs

/-! # Making a directory and its parents

    `mkdirs` cuts one copy of the path at the slashes with `strtok_r`, and ends another
    at each component in turn, by putting a NUL there and the slash back.

    What it calls `mkdir` on is the path up to each component (`mkdirs_eq`).  `EEXIST`
    is as good as success, also for the path itself, where no later `mkdir` would fail
    if it was not for a directory. -/

namespace FlinterMkdirs

abbrev Text := List Char

/-- `errno`. -/
inductive Errno
  | EEXIST
  | EINVAL
  | ENOMEM
  | other (n : Nat)
deriving DecidableEq

/-- A file system: `mkdir`, which returns 0 or an error, and what is a directory. -/
structure FileSystem (σ : Type) where
  mkdir : σ → Text → Option Errno × σ
  isDir : σ → Text → Prop

-- ── The code ─────────────────────────────────────────────────────────────────

/-- What `strtok_r` returns and leaves: the offset of the token, its length, and the
    offset and the text from where it goes on. -/
structure Token where
  next : Nat
  len : Nat
  ptr : Nat
  rest : Text

/-- `strtok_r` with `/`, of what is at `ptr`. -/
def strtok (ptr : Nat) (s : Text) : Option Token :=
  let next := ptr + (s.takeWhile (· == '/')).length
  let t := s.dropWhile (· == '/')
  let len := (t.takeWhile (· != '/')).length
  -- The slash behind the token is overwritten, and `ptr` is behind that.
  match t, t.dropWhile (· != '/') with
  | [], _ => none
  | _, [] => some ⟨next, len, next + len, []⟩
  | _, _ :: rest => some ⟨next, len, next + len + 1, rest⟩

/-- `mkdirs`: the local variables of the loop, `prev` and `next` as offsets in `path`. -/
structure Locals where
  copy : Text
  pos : Int
  prev : Option Nat

/-- `mkdirs`: `copy`, with the slash that ended the last component. -/
def Locals.restored (locals : Locals) : Text :=
  if locals.pos ≥ 0 then locals.copy.set locals.pos.toNat '/' else locals.copy

/-- `mkdirs`: `pos`, at the end of the token. -/
def Locals.moved (locals : Locals) (next len : Nat) : Int :=
  match locals.prev with
  | some prev => locals.pos + (((next : Int) - prev) - 1 + len)
  | none => locals.pos + (len + 1)

/-- `mkdirs`: the body of the loop, up to `mkdir`. -/
def patch (locals : Locals) (next len : Nat) : Locals :=
  let pos := locals.moved next len
  ⟨locals.restored.set pos.toNat '\x00', pos, some (next + len - 1)⟩

/-- A string in a buffer. -/
def cstr (buffer : Text) : Text := buffer.takeWhile (· != '\x00')

-- ── Tokens ───────────────────────────────────────────────────────────────────

section Tokens

variable {ptr : Nat} {s seps part rest : Text} {t : Token}

theorem strtok_seps (hseps : ∀ c ∈ seps, (c == '/') = true) : strtok ptr seps = none := by
  rw [strtok, List.dropWhile_eq_nil_iff.mpr hseps]

/-- The slashes are skipped, and the token goes up to the next one. -/
theorem strtok_part (hseps : ∀ c ∈ seps, (c == '/') = true) (hne : part ≠ [])
    (hpart : ∀ c ∈ part, (c == '/') = false) (hrest : ∀ c ∈ rest.head?, (c == '/') = true) :
    strtok ptr (seps ++ part ++ rest) = some ⟨ptr + seps.length, part.length,
      ptr + seps.length + part.length + (rest.take 1).length, rest.drop 1⟩ := by
  have hnot : ∀ d ∈ part, (d != '/') = true := by
    intro d hd
    rw [bne, hpart d hd, Bool.not_false]
  have hstop : ∀ c ∈ (part ++ rest).head?, (c == '/') = false := by
    obtain ⟨c, cs, rfl⟩ := List.exists_cons_of_ne_nil hne
    intro d hd
    obtain rfl := Option.some.inj hd
    exact hpart c List.mem_cons_self
  have hend : ∀ c ∈ rest.head?, (c != '/') = false := by
    intro c hc
    rw [bne, hrest c hc, Bool.not_true]
  rw [List.append_assoc, strtok, Splitting.takeWhile_append_stop hseps hstop,
    Splitting.dropWhile_append_stop hseps hstop, Splitting.takeWhile_append_stop hnot hend,
    Splitting.dropWhile_append_stop hnot hend]
  obtain ⟨c, cs, rfl⟩ := List.exists_cons_of_ne_nil hne
  cases rest <;> rfl

/-- It goes on where it would have, had the slash not been overwritten. -/
theorem strtok_resume (hrest : ∀ c ∈ rest.head?, (c == '/') = true) :
    strtok (ptr + (rest.take 1).length) (rest.drop 1) = strtok ptr rest := by
  cases rest with
  | nil => rfl
  | cons c rest =>
      have hc : (c == '/') = true := hrest c rfl
      rw [strtok, strtok, List.takeWhile_cons_of_pos (p := (· == '/')) hc,
        List.dropWhile_cons_of_pos (p := (· == '/')) hc, List.length_cons, ← Nat.add_assoc,
        Nat.add_right_comm]
      rfl

theorem strtok_shorter (h : strtok ptr s = some t) : t.rest.length < s.length := by
  revert h
  refine Splitting.part_induction (motive := fun s => strtok ptr s = some t →
    t.rest.length < s.length) (· == '/') ?_ ?_ s
  · intro seps hseps h
    rw [strtok_seps hseps] at h
    cases h
  · intro seps part rest hseps hne hpart hrest _ h
    rw [strtok_part hseps hne hpart hrest] at h
    obtain rfl := Option.some.inj h
    have hpos := List.length_pos_iff.mpr hne
    simp only [List.length_append, List.length_drop]
    omega

end Tokens

-- ── The loop ─────────────────────────────────────────────────────────────────

/-- What is returned, `errno` of a failure, the file system, and what `mkdir` was called
    on. -/
structure Outcome (σ : Type) where
  ret : Int
  errno : Option Errno
  state : σ
  calls : List Text

variable {σ : Type}

/-- `mkdirs`: the loop. -/
def mkdirsLoop (fs : FileSystem σ) (s : σ) (locals : Locals) :
    Option Token → Outcome σ
  | none => ⟨0, none, s, []⟩
  | some t =>
      let patched := patch locals t.next t.len
      let answer := fs.mkdir s (cstr patched.copy)
      if answer.1 = none ∨ answer.1 = some .EEXIST then
        let later := mkdirsLoop fs answer.2 patched (strtok t.ptr t.rest)
        { later with calls := cstr patched.copy :: later.calls }
      else ⟨-1, answer.1, answer.2, [cstr patched.copy]⟩
termination_by t => (t.map (·.rest.length + 1)).getD 0
decreasing_by
  cases hlater : strtok t.ptr t.rest with
  | none => exact Nat.succ_pos _
  | some later => exact Nat.succ_lt_succ (strtok_shorter hlater)

/-- `mkdirs`, and whether `strdup` works. -/
def mkdirs (fs : FileSystem σ) (copied pathCopied : Bool) (s : σ) (pathname : Text) :
    Outcome σ :=
  if pathname = [] then ⟨-1, some .EINVAL, s, []⟩
  else if !copied then ⟨-1, some .ENOMEM, s, []⟩
  else if !pathCopied then ⟨-1, some .ENOMEM, s, []⟩
  else
    let token := strtok 0 pathname
    let pos := match token with
      | some t => (t.next : Int) - 1
      | none => 0
    mkdirsLoop fs s ⟨pathname ++ ['\x00'], pos, none⟩ token

-- ── What is made ─────────────────────────────────────────────────────────────

/-- The text up to each component of `s`, from `done`, which is in front of it. -/
def prefixesFrom (done : Text) : Text → List Text
  | [] => []
  | c :: s =>
      if c ≠ '/' ∧ (s = [] ∨ s.head? = some '/') then
        (done ++ [c]) :: prefixesFrom (done ++ [c]) s
      else prefixesFrom (done ++ [c]) s

/-- The prefixes of a path that end at a component. -/
def prefixes (pathname : Text) : List Text := prefixesFrom [] pathname

example : prefixes "//a/bc//".toList = ["//a".toList, "//a/bc".toList] := by decide

/-- `mkdir` for each path in turn, as long as it works, or the path is there. -/
def makeAll (fs : FileSystem σ) (s : σ) : List Text → Outcome σ
  | [] => ⟨0, none, s, []⟩
  | p :: ps =>
      let answer := fs.mkdir s p
      if answer.1 = none ∨ answer.1 = some .EEXIST then
        let later := makeAll fs answer.2 ps
        { later with calls := p :: later.calls }
      else ⟨-1, answer.1, answer.2, [p]⟩

/-- The last of these calls is the first that fails other than with `EEXIST`. -/
def Fails (fs : FileSystem σ) (s : σ) : List Text → Prop
  | [] => False
  | [p] => (fs.mkdir s p).1 ≠ none ∧ (fs.mkdir s p).1 ≠ some .EEXIST
  | p :: q :: ps =>
      ((fs.mkdir s p).1 = none ∨ (fs.mkdir s p).1 = some .EEXIST) ∧
        Fails fs (fs.mkdir s p).2 (q :: ps)

section Prefixes

variable {done seps part rest s : Text}

theorem prefixesFrom_seps (hseps : ∀ c ∈ seps, (c == '/') = true) :
    prefixesFrom done (seps ++ rest) = prefixesFrom (done ++ seps) rest := by
  induction seps generalizing done with
  | nil => rw [List.nil_append, List.append_nil]
  | cons c seps ih =>
      obtain ⟨hc, hseps⟩ := List.forall_mem_cons.mp hseps
      rw [List.cons_append, prefixesFrom, if_neg (fun h => h.1 (beq_iff_eq.mp hc)), ih hseps,
        List.append_assoc, List.singleton_append]

theorem prefixesFrom_part (hne : part ≠ []) (hpart : ∀ c ∈ part, (c == '/') = false)
    (hrest : ∀ c ∈ rest.head?, (c == '/') = true) : prefixesFrom done (part ++ rest) =
      (done ++ part) :: prefixesFrom (done ++ part) rest := by
  induction part generalizing done with
  | nil => exact absurd rfl hne
  | cons c part ih =>
      obtain ⟨hc, hpart⟩ := List.forall_mem_cons.mp hpart
      have hc : c ≠ '/' := beq_eq_false_iff_ne.mp hc
      rw [List.cons_append, prefixesFrom]
      cases part with
      | nil =>
          have hend : rest = [] ∨ rest.head? = some '/' := by
            cases rest with
            | nil => exact Or.inl rfl
            | cons d rest => exact Or.inr (congrArg some (beq_iff_eq.mp (hrest d rfl)))
          rw [List.nil_append, if_pos ⟨hc, hend⟩]
      | cons d part =>
          have hd : d ≠ '/' := beq_eq_false_iff_ne.mp (hpart d List.mem_cons_self)
          rw [if_neg, ih (List.cons_ne_nil d part) hpart, List.append_assoc,
            List.singleton_append]
          rintro ⟨-, h | h⟩
          · cases h
          · exact hd (Option.some.inj h)

end Prefixes

-- ── The copy ─────────────────────────────────────────────────────────────────

section Copy

variable {pathname done rest : Text} {locals : Locals} {next len : Nat}

/-- Once the slash is back, `copy` is the path, and `pos` moves to the end of the token at
    `next`. -/
structure Ready (pathname : Text) (locals : Locals) (next : Nat) : Prop where
  restored : locals.restored = pathname ++ ['\x00']
  moved : ∀ len, locals.moved next len = (next + len : Nat)

theorem patch_of_ready (h : Ready pathname locals next) (len : Nat) : patch locals next len =
    ⟨(pathname ++ ['\x00']).set (next + len) '\x00', (next + len : Nat),
      some (next + len - 1)⟩ := by
  simp only [patch, h.restored, h.moved, Int.toNat_natCast]

/-- What `mkdir` is called on. -/
theorem cstr_patched (hnul : '\x00' ∉ done) :
    cstr (((done ++ rest) ++ ['\x00']).set done.length '\x00') = done := by
  have hset : ∃ tail, ((done ++ rest) ++ ['\x00']).set done.length '\x00' =
      done ++ '\x00' :: tail := by
    rw [List.append_assoc, List.set_append_right _ _ (Nat.le_refl _), Nat.sub_self]
    cases rest with
    | nil => exact ⟨[], rfl⟩
    | cons c rest => exact ⟨rest ++ ['\x00'], rfl⟩
  obtain ⟨tail, htail⟩ := hset
  rw [cstr, htail]
  refine Splitting.takeWhile_append_stop ?_ ?_
  · intro c hc
    rw [bne_iff_ne]
    rintro rfl
    exact hnul hc
  · intro c hc
    obtain rfl := Option.some.inj hc
    rfl

theorem set_of_getElem? {l : Text} {k : Nat} {c : Char} (h : l[k]? = some c) : l.set k c = l := by
  obtain ⟨hk, rfl⟩ := List.getElem?_eq_some_iff.mp h
  exact List.set_getElem_self hk

/-- The first token: nothing is overwritten yet. -/
theorem ready_first (hslash : ∀ k, next = k + 1 → pathname[k]? = some '/') :
    Ready pathname ⟨pathname ++ ['\x00'], (next : Int) - 1, none⟩ next := by
  refine ⟨?_, fun len => by simp only [Locals.moved]; omega⟩
  cases next with
  | zero => rfl
  | succ k =>
      have hk := hslash k rfl
      have hpos : ((k + 1 : Nat) : Int) - 1 = k := by omega
      obtain ⟨hlt, -⟩ := List.getElem?_eq_some_iff.mp hk
      rw [Locals.restored, hpos, if_pos (Int.natCast_nonneg k), Int.toNat_natCast]
      exact set_of_getElem? ((List.getElem?_append_left hlt).trans hk)

/-- A later one: the slash behind `done` was. -/
theorem ready_later (hne : done ≠ []) (hpath : pathname = done ++ '/' :: rest) :
    Ready pathname ⟨(pathname ++ ['\x00']).set done.length '\x00', done.length,
      some (done.length - 1)⟩ next := by
  have hpos := List.length_pos_iff.mpr hne
  refine ⟨?_, fun len => by simp only [Locals.moved]; omega⟩
  rw [Locals.restored, if_pos (Int.natCast_nonneg _), Int.toNat_natCast, List.set_set]
  refine set_of_getElem? ?_
  rw [hpath, List.append_assoc, List.getElem?_append_right (Nat.le_refl _), Nat.sub_self]
  rfl

end Copy

/-- The variables when the slash behind `done` is overwritten. -/
def cutAt (pathname done : Text) : Locals :=
  ⟨(pathname ++ ['\x00']).set done.length '\x00', done.length, some (done.length - 1)⟩

/-- One turn of the loop, with the token that `done` ends with. -/
theorem mkdirsLoop_token {pathname done rest : Text} {locals : Locals} {t : Token}
    (fs : FileSystem σ) (s : σ) (hnul : '\x00' ∉ pathname) (hpath : pathname = done ++ rest)
    (hready : Ready pathname locals t.next) (hlen : t.next + t.len = done.length) :
    mkdirsLoop fs s locals (some t) =
      if (fs.mkdir s done).1 = none ∨ (fs.mkdir s done).1 = some .EEXIST then
        let later := mkdirsLoop fs (fs.mkdir s done).2 (cutAt pathname done) (strtok t.ptr t.rest)
        { later with calls := done :: later.calls }
      else ⟨-1, (fs.mkdir s done).1, (fs.mkdir s done).2, [done]⟩ := by
  have hpatch : patch locals t.next t.len = cutAt pathname done := by
    rw [patch_of_ready hready, hlen]
    rfl
  have hcstr : cstr (cutAt pathname done).copy = done := by
    rw [hpath] at hnul
    rw [cutAt, hpath]
    exact cstr_patched fun h => hnul (List.mem_append_left rest h)
  rw [mkdirsLoop, hpatch, hcstr]

/-- The loop makes what is left of the prefixes. -/
theorem mkdirsLoop_eq {pathname : Text} (fs : FileSystem σ) (hnul : '\x00' ∉ pathname)
    (rest done : Text) (s : σ) (locals : Locals) (hpath : pathname = done ++ rest)
    (hready : ∀ t, strtok done.length rest = some t → Ready pathname locals t.next) :
    mkdirsLoop fs s locals (strtok done.length rest) = makeAll fs s (prefixesFrom done rest) := by
  revert done s locals
  refine Splitting.part_induction (motive := fun rest => ∀ done s locals,
    pathname = done ++ rest →
    (∀ t, strtok done.length rest = some t → Ready pathname locals t.next) →
    mkdirsLoop fs s locals (strtok done.length rest) = makeAll fs s (prefixesFrom done rest))
    (· == '/') ?_ ?_ rest
  · intro seps hseps done s locals _ _
    have hnone : prefixesFrom done (seps ++ []) = [] := prefixesFrom_seps hseps
    rw [List.append_nil] at hnone
    rw [strtok_seps hseps, hnone, mkdirsLoop, makeAll]
  · intro seps part rest hseps hne hpart hrest ih done s locals hpath hready
    have htoken : strtok done.length (seps ++ part ++ rest) = some _ :=
      strtok_part hseps hne hpart hrest
    have hprefixes : prefixesFrom done (seps ++ part ++ rest) =
        (done ++ seps ++ part) :: prefixesFrom (done ++ seps ++ part) rest := by
      rw [List.append_assoc, prefixesFrom_seps hseps, prefixesFrom_part hne hpart hrest]
    have hlen : done.length + seps.length + part.length = (done ++ seps ++ part).length := by
      rw [List.length_append, List.length_append]
    have hdone : done ++ seps ++ part ≠ [] := List.append_ne_nil_of_right_ne_nil _ hne
    have hpath : pathname = done ++ seps ++ part ++ rest := by
      rw [hpath]
      simp only [List.append_assoc]
    have hready := hready _ htoken
    rw [htoken, hprefixes, mkdirsLoop_token fs s hnul hpath hready hlen, hlen,
      strtok_resume hrest, makeAll]
    -- The next token is behind a slash, which is put back before it is made.
    have hlater : ∀ s, mkdirsLoop fs s (cutAt pathname (done ++ seps ++ part))
        (strtok (done ++ seps ++ part).length rest) =
          makeAll fs s (prefixesFrom (done ++ seps ++ part) rest) := by
      intro s
      refine ih _ s _ hpath fun t ht => ?_
      cases rest with
      | nil => cases ht
      | cons c rest =>
          obtain rfl : c = '/' := beq_iff_eq.mp (hrest c rfl)
          exact ready_later hdone hpath
    rw [hlater]

theorem slash_before_token {pathname : Text} {t : Token} {k : Nat}
    (h : strtok 0 pathname = some t) (hk : t.next = k + 1) : pathname[k]? = some '/' := by
  revert h
  refine Splitting.part_induction (motive := fun s => strtok 0 s = some t → s[k]? = some '/')
    (· == '/') ?_ ?_ pathname
  · intro seps hseps h
    rw [strtok_seps hseps] at h
    cases h
  · intro seps part rest hseps hne hpart hrest _ h
    rw [strtok_part hseps hne hpart hrest] at h
    obtain rfl := Option.some.inj h
    have hlt : k < seps.length := by
      dsimp only at hk
      omega
    rw [List.append_assoc, List.getElem?_append_left hlt, List.getElem?_eq_getElem hlt]
    exact congrArg some (beq_iff_eq.mp (hseps _ (List.getElem_mem hlt)))

/-- **THE PREFIXES**, in order, are what `mkdirs` makes. -/
theorem mkdirs_eq {pathname : Text} (fs : FileSystem σ) (s : σ) (hne : pathname ≠ [])
    (hnul : '\x00' ∉ pathname) :
    mkdirs fs true true s pathname = makeAll fs s (prefixes pathname) := by
  simp only [mkdirs, if_neg hne, Bool.not_true, Bool.false_eq_true, if_false]
  refine mkdirsLoop_eq fs hnul pathname [] s _ rfl fun t ht => ?_
  rw [List.length_nil] at ht
  rw [ht]
  exact ready_first fun k hk => slash_before_token ht hk

-- ── Directories ──────────────────────────────────────────────────────────────

/-- `q` is in `p`, by its path. -/
def Below (p q : Text) : Prop :=
  p ≠ [] ∧ ∃ seps name, q = p ++ seps ++ name ∧ seps ≠ [] ∧ (∀ c ∈ seps, (c == '/') = true) ∧
    name ≠ [] ∧ ∀ c ∈ name, (c == '/') = false

/-- What `mkdir` does: a directory is there if it works, none goes away, and it says
    neither that it worked nor `EEXIST` for what is below no directory. -/
structure Posix (fs : FileSystem σ) : Prop where
  made : ∀ s p, (fs.mkdir s p).1 = none → fs.isDir (fs.mkdir s p).2 p
  kept : ∀ s p q, fs.isDir s q → fs.isDir (fs.mkdir s p).2 q
  parent : ∀ s p q, Below p q → (fs.mkdir s q).1 = none ∨ (fs.mkdir s q).1 = some .EEXIST →
    fs.isDir s p

/-- Once all paths but the last are made, or said to be there, something is where the last
    one should be, and it is no directory. -/
def Blocked (fs : FileSystem σ) (s : σ) : List Text → Prop
  | [] => False
  | [p] => (fs.mkdir s p).1 = some .EEXIST ∧ ¬ fs.isDir (fs.mkdir s p).2 p
  | p :: q :: ps =>
      ((fs.mkdir s p).1 = none ∨ (fs.mkdir s p).1 = some .EEXIST) ∧
        Blocked fs (fs.mkdir s p).2 (q :: ps)

theorem chain_prefixesFrom {done rest : Text} (hdone : done ≠ [])
    (hrest : ∀ c ∈ rest.head?, (c == '/') = true) :
    List.IsChain Below (done :: prefixesFrom done rest) := by
  revert done hrest
  refine Splitting.part_induction (motive := fun rest => ∀ {done}, done ≠ [] →
    (∀ c ∈ rest.head?, (c == '/') = true) → List.IsChain Below (done :: prefixesFrom done rest))
    (· == '/') ?_ ?_ rest
  · intro seps hseps done _ _
    have hnone : prefixesFrom done (seps ++ []) = [] := prefixesFrom_seps hseps
    rw [List.append_nil] at hnone
    rw [hnone]
    exact List.IsChain.singleton done
  · intro seps part rest hseps hne hpart hrest ih done hdone hhead
    have hgap : seps ≠ [] := by
      rintro rfl
      obtain ⟨c, cs, rfl⟩ := List.exists_cons_of_ne_nil hne
      exact Bool.false_ne_true ((hpart c List.mem_cons_self).symm.trans (hhead c rfl))
    rw [List.append_assoc, prefixesFrom_seps hseps, prefixesFrom_part hne hpart hrest]
    refine List.IsChain.cons_cons ?_ (ih (List.append_ne_nil_of_right_ne_nil _ hne) hrest)
    exact ⟨hdone, seps, part, rfl, hgap, hseps, hne, hpart⟩

/-- Each prefix is below the one before it. -/
theorem chain_prefixes (pathname : Text) : List.IsChain Below (prefixes pathname) := by
  refine Splitting.part_induction (motive := fun s => List.IsChain Below (prefixes s))
    (· == '/') ?_ ?_ pathname
  · intro seps hseps
    have hnone : prefixesFrom [] (seps ++ []) = [] := prefixesFrom_seps hseps
    rw [List.append_nil] at hnone
    rw [prefixes, hnone]
    exact List.IsChain.nil
  · intro seps part rest hseps hne hpart hrest _
    rw [prefixes, List.append_assoc, prefixesFrom_seps hseps, prefixesFrom_part hne hpart hrest]
    exact chain_prefixesFrom (List.append_ne_nil_of_right_ne_nil _ hne) hrest

section Directories

variable {fs : FileSystem σ} {s : σ} {ps : List Text} {p : Text}

theorem makeAll_kept (hfs : Posix fs) (h : fs.isDir s p) : fs.isDir (makeAll fs s ps).state p := by
  induction ps generalizing s with
  | nil => exact h
  | cons q ps ih =>
      rw [makeAll]
      split
      · exact ih (hfs.kept s q p h)
      · exact hfs.kept s q p h

theorem makeAll_calls (fs : FileSystem σ) (s : σ) (ps : List Text) :
    (makeAll fs s ps).calls <+: ps ∧
      ((makeAll fs s ps).ret = 0 → (makeAll fs s ps).calls = ps) := by
  induction ps generalizing s with
  | nil => exact ⟨List.prefix_rfl, fun _ => rfl⟩
  | cons p ps ih =>
      rw [makeAll]
      split
      · obtain ⟨hcalls, hall⟩ := ih (fs.mkdir s p).2
        exact ⟨List.cons_prefix_cons.mpr ⟨rfl, hcalls⟩, fun h => congrArg (p :: ·) (hall h)⟩
      · refine ⟨List.cons_prefix_cons.mpr ⟨rfl, List.nil_prefix⟩, fun h => ?_⟩
        cases h

/-- When it stops before the end, a call has failed. -/
theorem makeAll_fails (h : (makeAll fs s ps).ret ≠ 0) : Fails fs s (makeAll fs s ps).calls := by
  induction ps generalizing s with
  | nil => exact absurd rfl h
  | cons p ps ih =>
      rw [makeAll] at h ⊢
      split at h
      next hanswer =>
        rw [if_pos hanswer]
        have hlater : Fails fs (fs.mkdir s p).2 (makeAll fs (fs.mkdir s p).2 ps).calls := ih h
        show Fails fs s (p :: (makeAll fs (fs.mkdir s p).2 ps).calls)
        cases hcalls : (makeAll fs (fs.mkdir s p).2 ps).calls with
        | nil =>
            rw [hcalls] at hlater
            exact hlater.elim
        | cons q qs =>
            rw [hcalls] at hlater
            exact ⟨hanswer, hlater⟩
      next hanswer =>
        rw [if_neg hanswer]
        exact not_or.mp hanswer

/-- 0 is returned if each path was made or there already. -/
theorem makeAll_cons_zero (h : (makeAll fs s (p :: ps)).ret = 0) :
    ((fs.mkdir s p).1 = none ∨ (fs.mkdir s p).1 = some .EEXIST) ∧
      (makeAll fs (fs.mkdir s p).2 ps).ret = 0 ∧
      (makeAll fs s (p :: ps)).state = (makeAll fs (fs.mkdir s p).2 ps).state := by
  rw [makeAll] at h ⊢
  split at h
  · next hanswer =>
      rw [if_pos hanswer]
      exact ⟨hanswer, h, rfl⟩
  · cases h

/-- Unless the last one is blocked, all are directories when 0 is returned. -/
theorem makeAll_dirs (hfs : Posix fs) (hchain : List.IsChain Below ps)
    (hret : (makeAll fs s ps).ret = 0) (hblocked : ¬ Blocked fs s ps) :
    ∀ p ∈ ps, fs.isDir (makeAll fs s ps).state p := by
  induction ps generalizing s with
  | nil => exact List.forall_mem_nil _
  | cons p ps ih =>
      obtain ⟨hanswer, hlater, hstate⟩ := makeAll_cons_zero hret
      rw [List.forall_mem_cons, hstate]
      cases ps with
      | nil =>
          refine ⟨?_, List.forall_mem_nil _⟩
          rcases hanswer with hmade | hexists
          · exact hfs.made s p hmade
          · by_contra hnot
            exact hblocked ⟨hexists, hnot⟩
      | cons q ps =>
          obtain ⟨hbelow, hchain⟩ := List.isChain_cons_cons.mp hchain
          have hnext := (makeAll_cons_zero hlater).1
          refine ⟨makeAll_kept hfs (hfs.parent _ p q hbelow hnext), ?_⟩
          exact ih hchain hlater fun h => hblocked ⟨hanswer, h⟩

/-- If it is blocked, 0 is returned and it is none. -/
theorem makeAll_blocked (h : Blocked fs s ps) :
    (makeAll fs s ps).ret = 0 ∧ ∃ p ∈ ps, ¬ fs.isDir (makeAll fs s ps).state p := by
  induction ps generalizing s with
  | nil => exact h.elim
  | cons p ps ih =>
      cases ps with
      | nil =>
          obtain ⟨hexists, hnot⟩ := h
          rw [makeAll, if_pos (Or.inr hexists)]
          exact ⟨rfl, p, List.mem_cons_self, hnot⟩
      | cons q ps =>
          obtain ⟨hanswer, h⟩ := h
          obtain ⟨hret, r, hr, hnot⟩ := ih h
          rw [makeAll, if_pos hanswer]
          exact ⟨hret, r, List.mem_cons_of_mem p hr, hnot⟩

end Directories

/-- `mkdir` is called on the prefixes of the path in order, on all of them if 0 is
    returned, and then they are all directories; else up to the first that fails, or
    on none, when the path cannot be copied. -/
def Made (fs : FileSystem σ) (s : σ) (pathname : Text) (r : Outcome σ) : Prop :=
  r.calls <+: prefixes pathname ∧
    (r.ret = 0 → r.calls = prefixes pathname ∧ ∀ p ∈ prefixes pathname, fs.isDir r.state p) ∧
    (r.ret ≠ 0 → r.errno = some .ENOMEM ∧ r.calls = [] ∨ Fails fs s r.calls)

/-- **MADE, UNLESS SOMETHING ELSE IS THERE.**  When 0 is returned the path and all its
    prefixes are directories, unless something else is already where the path itself
    should be. -/
theorem mkdirs_made_iff {fs : FileSystem σ} (hfs : Posix fs) (copied pathCopied : Bool) (s : σ)
    {pathname : Text} (hne : pathname ≠ []) (hnul : '\x00' ∉ pathname) :
    Made fs s pathname (mkdirs fs copied pathCopied s pathname) ↔
      ¬ (copied = true ∧ pathCopied = true ∧ Blocked fs s (prefixes pathname)) := by
  by_cases hcopies : copied = true ∧ pathCopied = true
  · obtain ⟨rfl, rfl⟩ := hcopies
    rw [mkdirs_eq fs s hne hnul]
    constructor
    · rintro ⟨-, hmade, -⟩ ⟨-, -, hblocked⟩
      obtain ⟨hret, p, hp, hnot⟩ := makeAll_blocked hblocked
      exact hnot ((hmade hret).2 p hp)
    · intro hblocked
      obtain ⟨hcalls, hall⟩ := makeAll_calls fs s (prefixes pathname)
      refine ⟨hcalls, fun hret => ⟨hall hret, ?_⟩, fun hret => .inr (makeAll_fails hret)⟩
      exact makeAll_dirs hfs (chain_prefixes pathname) hret fun h => hblocked ⟨rfl, rfl, h⟩
  · have hfailed : mkdirs fs copied pathCopied s pathname = ⟨-1, some .ENOMEM, s, []⟩ := by
      rw [mkdirs, if_neg hne]
      cases copied <;> cases pathCopied <;> first | rfl | exact absurd ⟨rfl, rfl⟩ hcopies
    rw [hfailed]
    refine iff_of_true ⟨List.nil_prefix, fun h => ?_, fun _ => .inl ⟨rfl, rfl⟩⟩
      fun h => hcopies ⟨h.1, h.2.1⟩
    cases h

/-- A file system that cannot be written, with a file `f` in it. -/
def readOnly : FileSystem Unit where
  mkdir _ p := (some (if p = ['f'] then .EEXIST else .other 30), ())
  isDir _ p := p = ['/']

theorem readOnly_posix : Posix readOnly where
  made := by
    intro s p h
    cases h
  kept _ _ _ h := h
  parent := by
    rintro s p q ⟨hp, seps, name, rfl, hseps, -, hname, -⟩ h
    have hlong : p ++ seps ++ name ≠ ['f'] := by
      intro heq
      have hlen := congrArg List.length heq
      have hp := List.length_pos_iff.mpr hp
      have hseps := List.length_pos_iff.mpr hseps
      rw [List.length_append, List.length_append, List.length_singleton] at hlen
      omega
    have hanswer : (readOnly.mkdir s (p ++ seps ++ name)).1 = some (.other 30) :=
      congrArg some (if_neg hlong)
    rw [hanswer] at h
    rcases h with h | h <;> cases h

theorem mkdirs_made_iff_file : ¬ Made readOnly () ['f'] (mkdirs readOnly true true () ['f']) :=
  fun h => (mkdirs_made_iff readOnly_posix true true () (by decide) (by decide)).mp h
    ⟨rfl, rfl, rfl, by simp [readOnly]⟩

/-- A file is there, and 0 is returned. -/
theorem file_in_the_way : (mkdirs readOnly true true () ['f']).ret = 0 ∧
    ¬ Made readOnly () ['f'] (mkdirs readOnly true true () ['f']) := by
  have hret : (mkdirs readOnly true true () ['f']).ret = 0 := by
    rw [mkdirs_eq readOnly () (by decide) (by decide)]
    rfl
  refine ⟨hret, ?_⟩
  rintro ⟨-, hmade, -⟩
  have hdir : ['f'] = ['/'] := (hmade hret).2 ['f'] (by decide)
  exact absurd hdir (by decide)

end FlinterMkdirs
