import Flinter.SafeIoProofs
import Mathlib.Data.List.Range

/-! # Transferring a whole buffer

    `safe_timed_read_all` and `safe_timed_write_all` go on until the whole buffer is
    transferred, the time is up, something fails or, when reading, the peer closes.
    The bytes are the next ones in order whatever comes of the calls, and the loops
    keep `ptr`, `remain` and `result` in step with them.

    Without a time limit there is no loop, though: what one call happens to transfer
    is all.  And when the mode of the descriptor cannot be restored at the end, -1
    is returned no matter how many bytes have been transferred. -/

namespace FlinterSafeIo

/-- What transfers do to the bytes: `move s ptr len` transfers so many from, or to,
    `ptr` on.  Transfers one right behind the other are as good as one. -/
structure Transfer (σ : Type) where
  move : σ → Nat → Nat → σ
  move_none : ∀ s ptr, move s ptr 0 = s
  move_move : ∀ s ptr n k, move (move s ptr n) (ptr + n) k = move s ptr (n + k)

/-- A buffer that is read into, and how many bytes have been read. -/
structure Reading where
  buffer : Nat → UInt8
  taken : Nat

-- ── The code ─────────────────────────────────────────────────────────────────

/-- `read(fd, ptr, remain)`, when it returns `len`. -/
def read (stream : Nat → UInt8) (s : Reading) (ptr len : Nat) : Reading :=
  ⟨fun i => if ptr ≤ i ∧ i < ptr + len then stream (s.taken + (i - ptr)) else s.buffer i,
    s.taken + len⟩

/-- `write(fd, ptr, remain)`, when it returns `len`. -/
def write (buffer : Nat → UInt8) (sent : List UInt8) (ptr len : Nat) : List UInt8 :=
  sent ++ (List.range' ptr len).map buffer

/-- How far `ptr` gets by a call. -/
def Answer.moved : Answer → Nat
  | .failed _ => 0
  | .done len => len

/-- The loops of the timed calls, with `ptr` and the bytes. -/
def bytesLoop {σ : Type} (T : Transfer σ) (start milliseconds : ℤ)
    (ready : Locals → Answer → Option Next) :
    Nat → σ → Locals → List (Round Answer) → Option (Exit Answer × σ)
  | _, _, _, [] => none
  | ptr, s, l, r :: rest =>
      let polled := l.polled ++ [l.timeout]
      let timeout := safeCalculateTimeout start milliseconds r.now
      match r.poll with
      | .failed e =>
          if e ≠ .eintr then some (⟨false, resultOf l, e, polled, rest⟩, s)
          else
            bytesLoop T start milliseconds ready ptr s
              { l with timeout := timeout, errno := e, polled := polled } rest
      | .timedOut => some (⟨false, resultOf l, .etimedout, polled, rest⟩, s)
      | .ready =>
          let s := T.move s ptr r.call.moved
          match ready l r.call with
          | none => none
          | some (.leave atEnd value errno) => some (⟨atEnd, value, errno, polled, rest⟩, s)
          | some (.again l) =>
              bytesLoop T start milliseconds ready (ptr + r.call.moved) s
                { l with timeout := timeout, polled := polled } rest

/-- What the call without a time limit moves. -/
def directMoved (valid : Bool) (untimed : List Answer) : Nat :=
  ((safeCall valid untimed).map Answer.moved).getD 0

/-- What a function returns that is left after it has switched the mode: the end of it
    switches back. -/
def Exit.restoring (exit : Exit Answer) (restoreFlags : Option Errno) (flags : Nat) :
    Return Answer :=
  if exit.atEnd then
    match restoreFlags with
    | some e => { exit with value := -1, errno := e }.toReturn (flags ||| oNonblock)
    | none => exit.toReturn flags
  else exit.toReturn (flags ||| oNonblock)

/-- What the timed calls return, and the bytes. -/
def timedBytes {σ : Type} (T : Transfer σ) (valid : Bool) (milliseconds : ℤ)
    (answers : Answers Answer) (errno : Errno) (flags : Nat)
    (ready : Locals → Answer → Option Next) (count : Nat) (s : σ) :
    Option (Return Answer × σ) :=
  if milliseconds < 0 then
    (direct valid answers errno flags).map fun ret =>
      (ret, T.move s 0 (directMoved valid answers.untimed))
  else if answers.start < 0 then some (⟨-1, errno, flags, [], answers.rounds⟩, s)
  else
    match answers.getFlags with
    | some e => some (⟨-1, e, flags, [], answers.rounds⟩, s)
    | none =>
        let body := bytesLoop T answers.start milliseconds ready 0 s
          ⟨milliseconds, count, 0, errno, []⟩ answers.rounds
        if flags &&& oNonblock = 0 then
          match answers.setFlags with
          | some e => some (⟨-1, e, flags, [], answers.rounds⟩, s)
          | none => body.map fun left => (left.1.restoring answers.restoreFlags flags, left.2)
        else body.map fun left => (left.1.toReturn flags, left.2)

theorem read_none (stream : Nat → UInt8) (s : Reading) (ptr : Nat) :
    read stream s ptr 0 = s := by
  have hno (i : Nat) : ¬(ptr ≤ i ∧ i < ptr) := by omega
  simp [read, hno]

theorem read_read (stream : Nat → UInt8) (s : Reading) (ptr n k : Nat) :
    read stream (read stream s ptr n) (ptr + n) k = read stream s ptr (n + k) := by
  simp only [read, Reading.mk.injEq]
  refine ⟨funext fun i => ?_, Nat.add_assoc ..⟩
  by_cases hsecond : ptr + n ≤ i ∧ i < ptr + n + k
  · rw [if_pos hsecond, if_pos (by omega)]
    congr 1
    omega
  · rw [if_neg hsecond]
    by_cases hfirst : ptr ≤ i ∧ i < ptr + n
    · rw [if_pos hfirst, if_pos (by omega)]
    · rw [if_neg hfirst, if_neg (by omega)]

theorem write_none (buffer : Nat → UInt8) (sent : List UInt8) (ptr : Nat) :
    write buffer sent ptr 0 = sent := List.append_nil sent

theorem write_write (buffer : Nat → UInt8) (sent : List UInt8) (ptr n k : Nat) :
    write buffer (write buffer sent ptr n) (ptr + n) k = write buffer sent ptr (n + k) := by
  rw [write, write, write, List.append_assoc, ← List.map_append, List.range'_append_1]

/-- Reading the bytes of a stream. -/
def reading (stream : Nat → UInt8) : Transfer Reading :=
  ⟨read stream, read_none stream, read_read stream⟩

/-- Writing the bytes of a buffer. -/
def writing (buffer : Nat → UInt8) : Transfer (List UInt8) :=
  ⟨write buffer, write_none buffer, write_write buffer⟩

/-- `safe_timed_read_ex`, with the bytes. -/
def safeTimedReadExBytes (stream : Nat → UInt8) (valid : Bool) (count : Nat)
    (milliseconds : ℤ) (all : Bool) (answers : Answers Answer) (errno : Errno)
    (flags : Nat) (before : Reading) : Option (Return Answer × Reading) :=
  timedBytes (reading stream) valid milliseconds answers errno flags (readReady all) count
    before

/-- `safe_timed_read_all`, with the bytes. -/
def safeTimedReadAllBytes (stream : Nat → UInt8) (valid : Bool) (count : Nat)
    (milliseconds : ℤ) (answers : Answers Answer) (errno : Errno) (flags : Nat)
    (before : Reading) : Option (Return Answer × Reading) :=
  safeTimedReadExBytes stream valid count milliseconds true answers errno flags before

/-- `safe_timed_write_ex`, with the bytes. -/
def safeTimedWriteExBytes (buffer : Nat → UInt8) (valid : Bool) (count : Nat)
    (milliseconds : ℤ) (all : Bool) (answers : Answers Answer) (errno : Errno)
    (flags : Nat) (sent : List UInt8) : Option (Return Answer × List UInt8) :=
  timedBytes (writing buffer) valid milliseconds answers errno flags (writeReady all) count
    sent

/-- `safe_timed_write_all`, with the bytes. -/
def safeTimedWriteAllBytes (buffer : Nat → UInt8) (valid : Bool) (count : Nat)
    (milliseconds : ℤ) (answers : Answers Answer) (errno : Errno) (flags : Nat)
    (sent : List UInt8) : Option (Return Answer × List UInt8) :=
  safeTimedWriteExBytes buffer valid count milliseconds true answers errno flags sent

-- ── What happens in a round ──────────────────────────────────────────────────

/-- How many bytes a round moves. -/
def Round.moved (r : Round Answer) : Nat := if r.poll = .ready then r.call.moved else 0

/-- How many bytes rounds move. -/
def movedBy : List (Round Answer) → Nat
  | [] => 0
  | r :: rest => r.moved + movedBy rest

/-- Each round moves no more bytes than remain. -/
def Fits : Nat → List (Round Answer) → Prop
  | _, [] => True
  | remain, r :: rest => r.moved ≤ remain ∧ Fits (remain - r.moved) rest

/-- The time is up, or something fails other than by an interruption. -/
def Round.Breaks (r : Round Answer) : Prop :=
  r.poll = .timedOut ∨ (∃ e, r.poll = .failed e ∧ e ≠ .eintr) ∨
    r.poll = .ready ∧ ∃ e, r.call = .failed e ∧ ¬e.transient

/-- The peer has closed.  Only reading finds out by a call that moves nothing. -/
def Round.Closes (closes : Bool) (r : Round Answer) : Prop :=
  closes = true ∧ r.poll = .ready ∧ r.call = .done 0

@[simp]
theorem movedBy_nil : movedBy [] = 0 := rfl

@[simp]
theorem movedBy_cons (r : Round Answer) (rest : List (Round Answer)) :
    movedBy (r :: rest) = r.moved + movedBy rest := rfl

theorem Round.moved_ready {r : Round Answer} (h : r.poll = .ready) :
    r.moved = r.call.moved := if_pos h

theorem Round.moved_not_ready {r : Round Answer} (h : r.poll ≠ .ready) : r.moved = 0 :=
  if_neg h

theorem Round.Breaks.moved {r : Round Answer} (h : r.Breaks) : r.moved = 0 := by
  rcases h with h | ⟨e, h, -⟩ | ⟨h, e, hcall, -⟩
  · exact moved_not_ready (by rw [h]; rintro ⟨⟩)
  · exact moved_not_ready (by rw [h]; rintro ⟨⟩)
  · rw [moved_ready h, hcall]
    rfl

theorem Round.Breaks.not_closes {closes : Bool} {r : Round Answer} (h : r.Breaks) :
    ¬r.Closes closes := by
  rintro ⟨-, hpoll, hcall⟩
  rcases h with h | ⟨e, h, -⟩ | ⟨-, e, h, -⟩
  · cases hpoll.symm.trans h
  · cases hpoll.symm.trans h
  · cases hcall.symm.trans h

variable {σ : Type} {T : Transfer σ} {s after : σ} {ptr count : Nat} {closes : Bool}
variable {start milliseconds : ℤ} {ready : Locals → Answer → Option Next}
variable {l : Locals} {rounds rest : List (Round Answer)} {r : Round Answer}
variable {exit : Exit Answer} {answers : Answers Answer} {ret : Return Answer}
variable {valid : Bool} {errno : Errno} {flags : Nat} {ok : Answer → Prop}

-- ── The bytes follow `result` ────────────────────────────────────────────────

/-- The loop returns what it returns whatever the bytes are. -/
theorem bytesLoop_fst (T : Transfer σ) (ptr : Nat) (s : σ) (l : Locals)
    (rounds : List (Round Answer)) :
    (bytesLoop T start milliseconds ready ptr s l rounds).map Prod.fst =
      pollLoop start milliseconds resultOf ready l rounds := by
  induction rounds generalizing ptr s l with
  | nil => rfl
  | cons r rest ih =>
      rw [bytesLoop, pollLoop]
      cases r.poll with
      | failed e =>
          by_cases he : e ≠ .eintr
          · simp only [if_pos he, Option.map_some]
          · simp only [if_neg he, ih]
      | timedOut => rfl
      | ready =>
          dsimp only
          cases ready l r.call with
          | none => rfl
          | some next =>
              cases next with
              | leave atEnd value errno => rfl
              | again l' => exact ih _ _ _

/-- The rounds move bytes one right behind the other. -/
theorem bytesLoop_snd
    (h : bytesLoop T start milliseconds ready ptr s l rounds = some (exit, after))
    (hall : exit.unused = []) : after = T.move s ptr (movedBy rounds) := by
  induction rounds generalizing ptr s l with
  | nil => cases h
  | cons r rest ih =>
      rw [bytesLoop] at h
      rw [movedBy_cons]
      cases hpoll : r.poll with
      | failed e =>
          rw [hpoll] at h
          dsimp only at h
          rw [Round.moved_not_ready (by rw [hpoll]; rintro ⟨⟩), Nat.zero_add]
          by_cases he : e ≠ .eintr
          · rw [if_pos he] at h
            cases h
            rw [show rest = [] from hall, movedBy_nil, T.move_none]
          · rw [if_neg he] at h
            exact ih h
      | timedOut =>
          rw [hpoll] at h
          cases h
          rw [Round.moved_not_ready (by rw [hpoll]; rintro ⟨⟩), Nat.zero_add,
            show rest = [] from hall, movedBy_nil, T.move_none]
      | ready =>
          rw [hpoll] at h
          dsimp only at h
          rw [Round.moved_ready hpoll]
          cases hnext : ready l r.call with
          | none =>
              rw [hnext] at h
              cases h
          | some next =>
              rw [hnext] at h
              cases next with
              | leave atEnd value errno =>
                  cases h
                  rw [show rest = [] from hall, movedBy_nil, Nat.add_zero]
              | again l' => rw [ih h, T.move_move]

/-- How many bytes a timed call moves. -/
def bytesMoved (valid : Bool) (milliseconds : ℤ) (answers : Answers Answer) : Nat :=
  if milliseconds < 0 then directMoved valid answers.untimed else movedBy answers.rounds

theorem restoring_unused (exit : Exit Answer) (restoreFlags : Option Errno) (flags : Nat) :
    (exit.restoring restoreFlags flags).unused = exit.unused := by
  unfold Exit.restoring
  split
  · split <;> rfl
  · rfl

/-- What is returned does not depend on the bytes. -/
theorem timedBytes_fst (T : Transfer σ) (s : σ) :
    (timedBytes T valid milliseconds answers errno flags ready count s).map Prod.fst =
      timed valid milliseconds answers errno flags resultOf ready count := by
  rw [timedBytes, timed]
  by_cases hms : milliseconds < 0
  · rw [if_pos hms, if_pos hms, Option.map_map]
    exact Option.map_id'
  · rw [if_neg hms, if_neg hms]
    by_cases hstart : answers.start < 0
    · rw [if_pos hstart, if_pos hstart, Option.map_some]
    · rw [if_neg hstart, if_neg hstart, nonBlocking, ← bytesLoop_fst T 0 s]
      cases answers.getFlags with
      | some e => rfl
      | none =>
          dsimp only
          by_cases hflags : flags &&& oNonblock = 0
          · rw [if_pos hflags, if_pos hflags]
            cases answers.setFlags with
            | some e => rfl
            | none =>
                dsimp only
                rw [Option.map_map, Option.map_map]
                rfl
          · rw [if_neg hflags, if_neg hflags, Option.map_map, Option.map_map]
            rfl

/-- The bytes are moved one right behind the other. -/
theorem timedBytes_snd
    (h : timedBytes T valid milliseconds answers errno flags ready count s =
      some (ret, after))
    (hall : ret.unused = []) :
    after = T.move s 0 (bytesMoved valid milliseconds answers) := by
  rw [timedBytes] at h
  rw [bytesMoved]
  by_cases hms : milliseconds < 0
  · rw [if_pos hms] at h ⊢
    obtain ⟨_, -, heq⟩ := Option.map_eq_some_iff.mp h
    exact (congrArg Prod.snd heq).symm
  · rw [if_neg hms] at h ⊢
    have hnothing (hrounds : answers.rounds = []) : s = T.move s 0 (movedBy answers.rounds) := by
      rw [hrounds, movedBy_nil, T.move_none]
    by_cases hstart : answers.start < 0
    · rw [if_pos hstart] at h
      cases h
      exact hnothing hall
    · rw [if_neg hstart] at h
      cases hget : answers.getFlags with
      | some e =>
          rw [hget] at h
          cases h
          exact hnothing hall
      | none =>
          rw [hget] at h
          dsimp only at h
          by_cases hflags : flags &&& oNonblock = 0
          · rw [if_pos hflags] at h
            cases hset : answers.setFlags with
            | some e =>
                rw [hset] at h
                cases h
                exact hnothing hall
            | none =>
                rw [hset] at h
                obtain ⟨left, hleft, heq⟩ := Option.map_eq_some_iff.mp h
                cases heq
                exact bytesLoop_snd hleft ((restoring_unused ..).symm.trans hall)
          · rw [if_neg hflags] at h
            obtain ⟨left, hleft, heq⟩ := Option.map_eq_some_iff.mp h
            cases heq
            exact bytesLoop_snd hleft hall

-- ── What the loops come to ───────────────────────────────────────────────────

/-- The value is the number of the bytes, or -1 if there are none and the peer has not
    closed. -/
def IsNumber (value : ℤ) (n : Nat) (closed : Prop) : Prop :=
  (n ≠ 0 ∨ closed) ∧ value = n ∨ (n = 0 ∧ ¬closed) ∧ value = -1

/-- Of `count` bytes, `n` are transferred and the value says so.  Fewer than all there
    are only if something `broke` or the peer `closed`. -/
structure Transferred (count n : Nat) (value : ℤ) (broke closed : Prop) : Prop where
  le : n ≤ count
  number : IsNumber value n closed
  whole : n < count → broke ∨ closed

/-- What is done with an answer by a loop that transfers everything. -/
structure TransfersAll (closes : Bool) (ready : Locals → Answer → Option Next) : Prop where
  transient : ∀ l e, e.transient → ready l (.failed e) = some (.again { l with errno := e })
  failed : ∀ l e, ¬e.transient →
    ∃ atEnd, ready l (.failed e) = some (.leave atEnd (resultOf l) e)
  closed : closes = true → ∀ l, ready l (.done 0) = some (.leave true l.result l.errno)
  last : ∀ l len, l.remain ≤ len → ¬(closes = true ∧ len = 0) →
    ready l (.done len) =
      some (.leave true
        (resultOf { l with result := l.result + len, remain := l.remain - len }) l.errno)
  more : ∀ l len, len < l.remain → ¬(closes = true ∧ len = 0) →
    ready l (.done len) =
      some (.again { l with result := l.result + len, remain := l.remain - len })

theorem Transferred.mono {n : Nat} {value : ℤ} {broke broken closed : Prop}
    (h : Transferred count n value broke closed) (himp : broke → broken) :
    Transferred count n value broken closed :=
  ⟨h.le, h.number, fun hfewer => (h.whole hfewer).imp_left himp⟩

theorem transfersAll_readReady : TransfersAll true (readReady true) where
  transient l e he := by rw [readReady, if_pos he]
  failed l e he := ⟨false, by rw [readReady, if_neg he]⟩
  closed _ l := by rw [readReady, if_pos rfl]
  last l len hlen hopen := by
    rw [readReady, if_neg fun h0 => hopen ⟨rfl, h0⟩]
    exact if_pos (.inl (Nat.sub_eq_zero_of_le hlen))
  more l len hlen hopen := by
    rw [readReady, if_neg fun h0 => hopen ⟨rfl, h0⟩]
    exact if_neg (by simpa using Nat.sub_ne_zero_of_lt hlen)

theorem transfersAll_writeReady : TransfersAll false (writeReady true) where
  transient l e he := by rw [writeReady, if_pos he]
  failed l e he := ⟨_, by rw [writeReady, if_neg he]⟩
  closed h := absurd h Bool.false_ne_true
  last l len hlen _ := by
    rw [writeReady]
    exact if_pos (.inl (Nat.sub_eq_zero_of_le hlen))
  more l len hlen _ := by
    rw [writeReady]
    exact if_neg (by simpa using Nat.sub_ne_zero_of_lt hlen)

theorem isNumber_resultOf {closed : Prop} (l : Locals) (hopen : ¬closed) :
    IsNumber (resultOf l) l.result closed := by
  rw [resultOf]
  by_cases h0 : l.result = 0
  · exact .inr ⟨⟨h0, hopen⟩, if_pos h0⟩
  · exact .inl ⟨.inl h0, if_neg h0⟩

/-- A loop with so much of the `result` and so much that remains comes to a value. -/
def LoopTransferred (closes : Bool) (result remain : Nat) (rounds : List (Round Answer))
    (value : ℤ) : Prop :=
  Transferred (result + remain) (result + movedBy rounds) value (∃ r ∈ rounds, r.Breaks)
    (∃ r ∈ rounds, r.Closes closes)

/-- A round that the loop goes on after. -/
theorem LoopTransferred.cons {result remain : Nat} {value : ℤ} (hopen : ¬r.Closes closes)
    (hfits : r.moved ≤ remain)
    (h : LoopTransferred closes (result + r.moved) (remain - r.moved) rest value) :
    LoopTransferred closes result remain (r :: rest) value := by
  have hclosed : (∃ r' ∈ r :: rest, r'.Closes closes) ↔ ∃ r' ∈ rest, r'.Closes closes := by
    simp [hopen]
  have hn : result + r.moved + movedBy rest = result + movedBy (r :: rest) := by
    rw [movedBy_cons, Nat.add_assoc]
  have hcount : result + r.moved + (remain - r.moved) = result + remain := by omega
  rw [LoopTransferred, hn, hcount] at h
  refine ⟨h.le, ?_, fun hfewer => ?_⟩
  · rw [hclosed]
    exact h.number
  · rw [hclosed]
    exact (h.whole hfewer).imp_left fun ⟨r', hr', hbreaks⟩ =>
      ⟨r', List.mem_cons_of_mem r hr', hbreaks⟩

/-- The last round is one in which something breaks. -/
theorem LoopTransferred.broken (l : Locals) (h : r.Breaks) :
    LoopTransferred closes l.result l.remain [r] (resultOf l) := by
  have hmoved : movedBy [r] = 0 := by rw [movedBy_cons, h.moved, movedBy_nil]
  have hopen : ¬∃ r' ∈ [r], r'.Closes closes := by
    simpa using h.not_closes
  refine ⟨by omega, ?_, fun _ => .inl ⟨r, List.mem_singleton_self r, h⟩⟩
  rw [hmoved]
  exact isNumber_resultOf l hopen

/-- The last round is the one in which the peer has closed. -/
theorem LoopTransferred.closed (l : Locals) (h : r.Closes closes) :
    LoopTransferred closes l.result l.remain [r] l.result := by
  have hmoved : movedBy [r] = 0 := by
    rw [movedBy_cons, Round.moved_ready h.2.1, h.2.2]
    rfl
  have hclosed : ∃ r' ∈ [r], r'.Closes closes := ⟨r, List.mem_singleton_self r, h⟩
  refine ⟨by omega, .inl ⟨.inr hclosed, ?_⟩, fun _ => .inr hclosed⟩
  rw [hmoved, Nat.add_zero]

/-- Nothing remains after the last round. -/
theorem LoopTransferred.done (l : Locals) (h : l.remain = 0) :
    LoopTransferred closes l.result l.remain [] (resultOf l) := by
  refine ⟨by simp, isNumber_resultOf l (by simp), fun hfewer => ?_⟩
  rw [h, movedBy_nil] at hfewer
  exact absurd hfewer (Nat.lt_irrefl _)

/-- A loop is left with a value, and the rounds that did not happen. -/
def LeftWith (loop : Option (Exit Answer)) (unused : List (Round Answer)) (value : ℤ) :
    Prop :=
  ∃ exit, loop = some exit ∧ exit.unused = unused ∧ exit.value = value

/-- What comes of a round: something breaks, the peer has closed, or bytes are moved, and
    the loop goes on if there are more of them. -/
inductive RoundComes (closes : Bool) (l : Locals) (r : Round Answer)
    (rest : List (Round Answer)) (loop : Option (Exit Answer))
    (next : Locals → Option (Exit Answer)) : Prop
  | broken (hbreaks : r.Breaks) (hleft : LeftWith loop rest (resultOf l))
  | closed (hcloses : r.Closes closes) (hleft : LeftWith loop rest l.result)
  | moved (hunbroken : ¬r.Breaks) (hopen : ¬r.Closes closes) (l' : Locals)
      (hresult : l'.result = l.result + r.moved) (hremain : l'.remain = l.remain - r.moved)
      (hlast : l.remain ≤ r.moved → LeftWith loop rest (resultOf l'))
      (hmore : r.moved < l.remain → loop = next l')

/-- A round that moves nothing, and that the loop goes on after. -/
theorem RoundComes.idle {l' : Locals} {loop : Option (Exit Answer)}
    {next : Locals → Option (Exit Answer)} (hnext : loop = next l')
    (hresult : l'.result = l.result) (hremain' : l'.remain = l.remain)
    (hremain : 0 < l.remain) (hmoved : r.moved = 0) (hunbroken : ¬r.Breaks)
    (hopen : ¬r.Closes closes) :
    RoundComes closes l r rest loop next := by
  refine .moved hunbroken hopen l' ?_ ?_ (fun hlast => ?_) fun _ => hnext
  · rw [hmoved, hresult, Nat.add_zero]
  · rw [hmoved, hremain', Nat.sub_zero]
  · rw [hmoved] at hlast
    exact absurd hlast (Nat.not_le.mpr hremain)

theorem pollLoop_round (hready : TransfersAll closes ready) (hremain : 0 < l.remain)
    (r : Round Answer) (rest : List (Round Answer)) :
    RoundComes closes l r rest (pollLoop start milliseconds resultOf ready l (r :: rest))
      fun l' => pollLoop start milliseconds resultOf ready l' rest := by
  rw [pollLoop]
  cases hpoll : r.poll with
  | failed e =>
      dsimp only
      by_cases he : e ≠ .eintr
      · rw [if_pos he]
        exact .broken (.inr (.inl ⟨e, hpoll, he⟩)) ⟨_, rfl, rfl, rfl⟩
      · rw [if_neg he]
        refine .idle rfl rfl rfl hremain (Round.moved_not_ready ?_) ?_ ?_
        · rw [hpoll]
          rintro ⟨⟩
        · simpa [Round.Breaks, hpoll] using he
        · simp [Round.Closes, hpoll]
  | timedOut => exact .broken (.inl hpoll) ⟨_, rfl, rfl, rfl⟩
  | ready =>
      have hmoved := Round.moved_ready hpoll
      dsimp only
      cases hcall : r.call with
      | failed e =>
          rw [hcall] at hmoved
          by_cases he : e.transient
          · rw [hready.transient l e he]
            refine .idle rfl rfl rfl hremain hmoved ?_ ?_
            · simp [Round.Breaks, hpoll, hcall, he]
            · simp [Round.Closes, hcall]
          · obtain ⟨atEnd, hleave⟩ := hready.failed l e he
            rw [hleave]
            exact .broken (.inr (.inr ⟨hpoll, e, hcall, he⟩)) ⟨_, rfl, rfl, rfl⟩
      | done len =>
          obtain rfl : r.moved = len := by rw [hmoved, hcall, Answer.moved]
          by_cases hclosed : closes = true ∧ r.moved = 0
          · rw [hclosed.2] at hcall ⊢
            rw [hready.closed hclosed.1 l]
            exact .closed ⟨hclosed.1, hpoll, hcall⟩ ⟨_, rfl, rfl, rfl⟩
          · refine .moved ?_ ?_
              { l with
                timeout := safeCalculateTimeout start milliseconds r.now
                polled := l.polled ++ [l.timeout]
                result := l.result + r.moved
                remain := l.remain - r.moved }
              rfl rfl (fun hlast => ?_) fun hmore => ?_
            · simp [Round.Breaks, hpoll, hcall]
            · simpa [Round.Closes, hpoll, hcall] using hclosed
            · rw [hready.last l r.moved hlast hclosed]
              exact ⟨_, rfl, rfl, rfl⟩
            · rw [hready.more l r.moved hmore hclosed]

/-- **A LOOP TRANSFERS EVERYTHING**, or says how much. -/
theorem pollLoop_transferred (hready : TransfersAll closes ready)
    (h : pollLoop start milliseconds resultOf ready l rounds = some exit)
    (hall : exit.unused = []) (hremain : 0 < l.remain) (hfits : Fits l.remain rounds) :
    LoopTransferred closes l.result l.remain rounds exit.value := by
  induction rounds generalizing l with
  | nil => cases h
  | cons r rest ih =>
      have hlast {value : ℤ}
          (hleft : LeftWith (pollLoop start milliseconds resultOf ready l (r :: rest)) rest
            value) :
          rest = [] ∧ exit.value = value := by
        obtain ⟨exit', hexit, hunused, hvalue⟩ := hleft
        obtain rfl := Option.some.inj (hexit.symm.trans h)
        exact ⟨hunused.symm.trans hall, hvalue⟩
      cases pollLoop_round hready hremain r rest with
      | broken hbreaks hleft =>
          obtain ⟨rfl, hvalue⟩ := hlast hleft
          rw [hvalue]
          exact .broken l hbreaks
      | closed hcloses hleft =>
          obtain ⟨rfl, hvalue⟩ := hlast hleft
          rw [hvalue]
          exact .closed l hcloses
      | moved _ hopen l' hresult hremain' hleft hnext =>
          refine .cons hopen hfits.1 ?_
          rw [← hresult, ← hremain']
          rcases Nat.lt_or_ge r.moved l.remain with hmore | hnone
          · rw [hnext hmore] at h
            exact ih h (by omega) (hremain' ▸ hfits.2)
          · obtain ⟨rfl, hvalue⟩ := hlast (hleft hnone)
            rw [hvalue]
            exact .done l' (by omega)

-- ── What a whole call comes to ───────────────────────────────────────────────

/-- The time is up, or something fails, other than what comes after a loop. -/
def Broken (valid : Bool) (milliseconds : ℤ) (answers : Answers Answer) (flags : Nat) :
    Prop :=
  if milliseconds < 0 then ∃ e, safeCall valid answers.untimed = some (.failed e)
  else
    answers.start < 0 ∨ answers.getFlags ≠ none ∨
      (flags &&& oNonblock = 0 ∧ answers.setFlags ≠ none) ∨
      ∃ r ∈ answers.rounds, r.Breaks

/-- The peer has closed. -/
def Closed (closes valid : Bool) (milliseconds : ℤ) (answers : Answers Answer) : Prop :=
  if milliseconds < 0 then
    closes = true ∧ safeCall valid answers.untimed = some (.done 0)
  else ∃ r ∈ answers.rounds, r.Closes closes

/-- The code does what it is meant to: the one call without a time limit transfers
    everything, fails, or finds that the peer has closed, and with a time limit the
    mode can be restored, or need not be, or nothing has come of it. -/
def Meets (closes : Bool) (ok : Answer → Prop) (valid : Bool) (milliseconds : ℤ)
    (count : Nat) (answers : Answers Answer) (flags : Nat) : Prop :=
  if milliseconds < 0 then
    ∀ n, safeCall valid answers.untimed = some (.done n) →
      n = count ∨ closes = true ∧ n = 0
  else
    answers.start < 0 ∨ NotSwitched answers flags ∨ answers.restoreFlags = none ∨
      (∃ r ∈ answers.rounds, ¬r.Passes ok) ∨
      movedBy answers.rounds = 0 ∧ ¬∃ r ∈ answers.rounds, r.Closes closes

/-- What the kernel promises: a call moves no more bytes than it is asked for. -/
structure WithinCount (valid : Bool) (count : Nat) (answers : Answers Answer) : Prop where
  rounds : Fits count answers.rounds
  untimed : ∀ n, safeCall valid answers.untimed = some (.done n) → n ≤ count

theorem isNumber_failed {n : Nat} {closed : Prop} :
    IsNumber (-1) n closed ↔ n = 0 ∧ ¬closed := by
  refine ⟨fun h => ?_, fun h => .inr ⟨h, rfl⟩⟩
  rcases h with ⟨-, hvalue⟩ | ⟨h, -⟩
  · omega
  · exact h

/-- Without a time limit, there is but one call. -/
theorem direct_transferred (hcount : 0 < count)
    (hfits : ∀ n, safeCall valid answers.untimed = some (.done n) → n ≤ count)
    (h : direct valid answers errno flags = some ret) :
    Transferred count (directMoved valid answers.untimed) ret.value
        (∃ e, safeCall valid answers.untimed = some (.failed e))
        (closes = true ∧ safeCall valid answers.untimed = some (.done 0)) ↔
      ∀ n, safeCall valid answers.untimed = some (.done n) →
        n = count ∨ closes = true ∧ n = 0 := by
  rw [direct] at h
  rw [directMoved]
  cases hcall : safeCall valid answers.untimed with
  | none =>
      rw [hcall] at h
      cases h
  | some answer =>
      rw [hcall] at h hfits
      cases answer with
      | failed e =>
          cases h
          refine iff_of_true ⟨Nat.zero_le _, .inr ⟨⟨rfl, ?_⟩, rfl⟩, fun _ => .inl ⟨e, rfl⟩⟩ ?_
          · rintro ⟨-, ⟨⟩⟩
          · rintro n ⟨⟩
      | done n =>
          cases h
          have hsome {k : Nat} : some (Answer.done n) = some (.done k) ↔ n = k := by
            simp
          have hunbroken : ¬∃ e, some (Answer.done n) = some (.failed e) := by
            rintro ⟨e, ⟨⟩⟩
          simp only [hsome]
          constructor
          · rintro ⟨hle, -, hwhole⟩ _ rfl
            rcases Nat.lt_or_eq_of_le hle with hlt | heq
            · exact .inr ((hwhole hlt).resolve_left hunbroken)
            · exact .inl heq
          · intro hall
            refine ⟨hfits n rfl, .inl ⟨?_, rfl⟩, fun hlt => ?_⟩
            · rcases hall n rfl with rfl | hclosed
              · exact .inl hcount.ne'
              · exact .inr hclosed
            · exact .inr ((hall n rfl).resolve_left hlt.ne)

/-- Switching back makes -1 of what has been transferred, if it fails. -/
theorem restoring_transferred {n : Nat} {broken closed : Prop}
    (restoreFlags : Option Errno) (flags : Nat)
    (hexit : Transferred count n exit.value broken closed) :
    Transferred count n (exit.restoring restoreFlags flags).value broken closed ↔
      restoreFlags = none ∨ exit.atEnd = false ∨ n = 0 ∧ ¬closed := by
  unfold Exit.restoring
  cases exit.atEnd with
  | false => exact iff_of_true hexit (.inr (.inl rfl))
  | true =>
      cases restoreFlags with
      | none => exact iff_of_true hexit (.inl rfl)
      | some e =>
          rw [or_iff_right (Option.some_ne_none e), or_iff_right fun h => Bool.false_ne_true h.symm,
            ← isNumber_failed]
          exact ⟨fun h => h.number, fun h => ⟨hexit.le, h, hexit.whole⟩⟩

/-- With a time limit, the loop does it, unless the mode cannot be restored. -/
theorem nonBlocking_transferred {body : Option (Exit Answer)} {closed broken passes : Prop}
    {n : Nat} (h : nonBlocking answers flags body = some ret)
    (hfailed : answers.getFlags ≠ none ∨ flags &&& oNonblock = 0 ∧ answers.setFlags ≠ none →
      ret.unused = answers.rounds → Transferred count n (-1) broken closed)
    (hbody : ∀ exit, body = some exit → exit.unused = ret.unused →
      Transferred count n exit.value broken closed ∧ (exit.atEnd = true ↔ passes)) :
    Transferred count n ret.value broken closed ↔
      NotSwitched answers flags ∨ answers.restoreFlags = none ∨ ¬passes ∨
        n = 0 ∧ ¬closed := by
  rw [nonBlocking] at h
  cases hget : answers.getFlags with
  | some e =>
      rw [hget] at h
      cases h
      have hne : answers.getFlags ≠ none := by
        rw [hget]
        rintro ⟨⟩
      exact iff_of_true (hfailed (.inl hne) rfl) (.inl (.inl hne))
  | none =>
      rw [hget] at h
      dsimp only at h
      by_cases hflags : flags &&& oNonblock = 0
      · rw [if_pos hflags] at h
        cases hset : answers.setFlags with
        | some e =>
            rw [hset] at h
            cases h
            have hne : answers.setFlags ≠ none := by
              rw [hset]
              rintro ⟨⟩
            exact iff_of_true (hfailed (.inr ⟨hflags, hne⟩) rfl) (.inl (.inr (.inr hne)))
        | none =>
            rw [hset] at h
            obtain ⟨exit, hexit, hret⟩ := Option.map_eq_some_iff.mp h
            obtain rfl : exit.restoring answers.restoreFlags flags = ret := hret
            obtain ⟨hexited, hpasses⟩ := hbody exit hexit (restoring_unused ..).symm
            have hswitched : ¬NotSwitched answers flags := by
              rw [NotSwitched, hget, hset]
              simpa using hflags
            rw [or_iff_right hswitched, restoring_transferred _ _ hexited, ← hpasses,
              Bool.not_eq_true]
      · rw [if_neg hflags] at h
        obtain ⟨exit, hexit, rfl⟩ := Option.map_eq_some_iff.mp h
        exact iff_of_true (hbody exit hexit rfl).1 (.inl (.inr (.inl hflags)))

/-- **WHAT A TIMED CALL TRANSFERS.** -/
theorem timed_transferred (hready : TransfersAll closes ready) (hpassing : Passing ready ok)
    (hcount : 0 < count) (hfits : WithinCount valid count answers)
    (h : timed valid milliseconds answers errno flags resultOf ready count = some ret)
    (hall : ret.unused = []) :
    Transferred count (bytesMoved valid milliseconds answers) ret.value
        (Broken valid milliseconds answers flags) (Closed closes valid milliseconds answers) ↔
      Meets closes ok valid milliseconds count answers flags := by
  rw [timed] at h
  rw [bytesMoved, Broken, Closed, Meets]
  by_cases hms : milliseconds < 0
  · rw [if_pos hms] at h
    simp only [if_pos hms]
    exact direct_transferred hcount hfits.untimed h
  · rw [if_neg hms] at h
    simp only [if_neg hms]
    -- a call that fails before the loop
    have hfailed {broken : Prop} (hrounds : answers.rounds = []) (hbroken : broken) :
        Transferred count (movedBy answers.rounds) (-1) broken
          (∃ r ∈ answers.rounds, r.Closes closes) := by
      rw [hrounds]
      refine ⟨Nat.zero_le _, isNumber_failed.mpr ⟨rfl, ?_⟩, fun _ => .inl hbroken⟩
      rintro ⟨r, ⟨⟩, -⟩
    by_cases hstart : answers.start < 0
    · rw [if_pos hstart] at h
      cases h
      exact iff_of_true (hfailed hall (.inl hstart)) (.inl hstart)
    · rw [if_neg hstart] at h
      have hsome : (∃ r ∈ answers.rounds, ¬r.Passes ok) ↔ ¬∀ r ∈ answers.rounds, r.Passes ok := by
        simp
      rw [or_iff_right hstart, or_iff_right hstart, hsome]
      refine nonBlocking_transferred h (fun hnot hunused => ?_) fun exit hexit hunused => ?_
      · exact hfailed (hunused.symm.trans hall) (hnot.imp_right fun hset => .inl hset)
      · have hloop := pollLoop_transferred hready hexit (hunused.trans hall) hcount hfits.rounds
        rw [LoopTransferred, Nat.zero_add, Nat.zero_add] at hloop
        refine ⟨hloop.mono fun hbreaks => .inr (.inr hbreaks), ?_⟩
        exact pollLoop_atEnd hpassing hexit (hunused.trans hall)

-- ── That it comes to an end ──────────────────────────────────────────────────

/-- The system calls go on for long enough. -/
def Enough (closes valid : Bool) (milliseconds : ℤ) (count : Nat)
    (answers : Answers Answer) (flags : Nat) : Prop :=
  if milliseconds < 0 then safeCall valid answers.untimed ≠ none
  else
    Broken valid milliseconds answers flags ∨ Closed closes valid milliseconds answers ∨
      count ≤ movedBy answers.rounds

/-- A loop is left when something breaks, the peer has closed, or nothing remains. -/
theorem pollLoop_left (hready : TransfersAll closes ready) (hremain : 0 < l.remain)
    (h : (∃ r ∈ rounds, r.Breaks) ∨ (∃ r ∈ rounds, r.Closes closes) ∨
      l.remain ≤ movedBy rounds) :
    ∃ exit, pollLoop start milliseconds resultOf ready l rounds = some exit := by
  induction rounds generalizing l with
  | nil =>
      rcases h with ⟨r, hr, -⟩ | ⟨r, hr, -⟩ | h
      · cases hr
      · cases hr
      · exact absurd h (Nat.not_le.mpr hremain)
  | cons r rest ih =>
      rw [List.exists_mem_cons_iff, List.exists_mem_cons_iff, movedBy_cons] at h
      cases pollLoop_round hready hremain r rest with
      | broken _ hleft => exact hleft.imp fun _ h => h.1
      | closed _ hleft => exact hleft.imp fun _ h => h.1
      | moved hunbroken hopen l' _ hremain' hleft hnext =>
          rcases Nat.lt_or_ge r.moved l.remain with hmore | hnone
          · rw [or_iff_right hunbroken, or_iff_right hopen] at h
            rw [hnext hmore]
            exact ih (by omega) (h.imp_right (Or.imp_right fun hle => by omega))
          · exact (hleft hnone).imp fun _ h => h.1

/-- **A TIMED CALL RETURNS** when the system calls go on for long enough. -/
theorem timed_returns (hready : TransfersAll closes ready) (hcount : 0 < count)
    (h : Enough closes valid milliseconds count answers flags) :
    ∃ ret, timed valid milliseconds answers errno flags resultOf ready count = some ret := by
  rw [timed]
  rw [Enough] at h
  by_cases hms : milliseconds < 0
  · rw [if_pos hms] at h ⊢
    rw [direct]
    cases hcall : safeCall valid answers.untimed with
    | none => exact absurd hcall h
    | some answer => cases answer <;> exact ⟨_, rfl⟩
  · rw [if_neg hms] at h ⊢
    rw [Broken, if_neg hms, Closed, if_neg hms] at h
    by_cases hstart : answers.start < 0
    · rw [if_pos hstart]
      exact ⟨_, rfl⟩
    · rw [if_neg hstart, nonBlocking]
      rw [or_iff_right hstart] at h
      cases hget : answers.getFlags with
      | some e => exact ⟨_, rfl⟩
      | none =>
          rw [hget, or_iff_right (not_not.mpr rfl)] at h
          have hleft (hset : ¬(flags &&& oNonblock = 0 ∧ answers.setFlags ≠ none)) :
              ∃ exit, pollLoop answers.start milliseconds resultOf ready
                ⟨milliseconds, count, 0, errno, []⟩ answers.rounds = some exit := by
            rw [or_iff_right hset] at h
            exact pollLoop_left hready hcount h
          dsimp only
          by_cases hflags : flags &&& oNonblock = 0
          · rw [if_pos hflags]
            cases hset : answers.setFlags with
            | some e => exact ⟨_, rfl⟩
            | none =>
                obtain ⟨exit, hexit⟩ := hleft fun hfailed => hfailed.2 hset
                rw [hexit]
                exact ⟨_, rfl⟩
          · rw [if_neg hflags]
            obtain ⟨exit, hexit⟩ := hleft fun hfailed => hflags hfailed.1
            rw [hexit]
            exact ⟨_, rfl⟩

-- ── The whole buffer ─────────────────────────────────────────────────────────

/-- The next bytes of the stream are in the buffer, in order, and what is returned
    says how many. -/
def ReadsAll (stream : Nat → UInt8) (valid : Bool) (count : Nat) (milliseconds : ℤ)
    (answers : Answers Answer) (flags : Nat) (before : Reading) (ret : Return Answer)
    (after : Reading) : Prop :=
  ∃ n, after.taken = before.taken + n ∧
    (∀ i, after.buffer i = if i < n then stream (before.taken + i) else before.buffer i) ∧
    Transferred count n ret.value (Broken valid milliseconds answers flags)
      (Closed true valid milliseconds answers)

/-- The first bytes of the buffer are sent, in order, and what is returned says how
    many.  A peer that has closed makes a write fail. -/
def WritesAll (buffer : Nat → UInt8) (valid : Bool) (count : Nat) (milliseconds : ℤ)
    (answers : Answers Answer) (flags : Nat) (sent : List UInt8) (ret : Return Answer)
    (after : List UInt8) : Prop :=
  ∃ n, after = sent ++ (List.range n).map buffer ∧
    Transferred count n ret.value (Broken valid milliseconds answers flags)
      (Closed false valid milliseconds answers)

/-- What a timed call returns with the bytes, it returns without. -/
theorem timedBytes_returns
    (h : timedBytes T valid milliseconds answers errno flags ready count s =
      some (ret, after)) :
    timed valid milliseconds answers errno flags resultOf ready count = some ret := by
  rw [← timedBytes_fst T s, h, Option.map_some]

/-- A timed call that returns does so with the bytes. -/
theorem timedBytes_some (s : σ)
    (h : ∃ ret, timed valid milliseconds answers errno flags resultOf ready count = some ret) :
    ∃ ret after, timedBytes T valid milliseconds answers errno flags ready count s =
      some (ret, after) := by
  obtain ⟨ret, hret⟩ := h
  rw [← timedBytes_fst T s] at hret
  obtain ⟨⟨ret, after⟩, hboth, -⟩ := Option.map_eq_some_iff.mp hret
  exact ⟨ret, after, hboth⟩

theorem readsAll_iff {stream : Nat → UInt8} {before after : Reading}
    (hcount : 0 < count) (hfits : WithinCount valid count answers)
    (h : safeTimedReadAllBytes stream valid count milliseconds answers errno flags before =
      some (ret, after))
    (hall : ret.unused = []) :
    ReadsAll stream valid count milliseconds answers flags before ret after ↔
      Meets true (fun answer => ∀ e, answer = .failed e → e.transient) valid milliseconds
        count answers flags := by
  rw [← timed_transferred transfersAll_readReady (passing_readReady true) hcount hfits
    (timedBytes_returns h) hall]
  obtain rfl : after = read stream before 0 _ := timedBytes_snd h hall
  constructor
  · rintro ⟨n, htaken, -, hn⟩
    obtain rfl := Nat.add_left_cancel htaken
    exact hn
  · intro hn
    refine ⟨_, rfl, fun i => ?_, hn⟩
    simp [read]

theorem writesAll_iff {buffer : Nat → UInt8} {sent after : List UInt8}
    (hcount : 0 < count) (hfits : WithinCount valid count answers)
    (h : safeTimedWriteAllBytes buffer valid count milliseconds answers errno flags sent =
      some (ret, after))
    (hall : ret.unused = []) :
    WritesAll buffer valid count milliseconds answers flags sent ret after ↔
      Meets false (fun answer => ∀ e, answer = .failed e → e.transient ∨ e = .epipe) valid
        milliseconds count answers flags := by
  rw [← timed_transferred transfersAll_writeReady (passing_writeReady true) hcount hfits
    (timedBytes_returns h) hall]
  obtain rfl : after = write buffer sent 0 _ := timedBytes_snd h hall
  rw [WritesAll, write, ← List.range_eq_range']
  constructor
  · rintro ⟨n, hsent, hn⟩
    have hlength := congrArg List.length (List.append_cancel_left hsent)
    rw [List.length_map, List.length_map, List.length_range, List.length_range] at hlength
    rw [hlength]
    exact hn
  · exact fun hn => ⟨_, rfl, hn⟩

/-- **WHEN THE WHOLE BUFFER IS TRANSFERRED.** -/
theorem transfers_all_iff (valid : Bool) (count : Nat) (milliseconds : ℤ)
    (answers : Answers Answer) (errno : Errno) (flags : Nat) (hcount : 0 < count)
    (hfits : WithinCount valid count answers) :
    (∀ stream before,
      (Enough true valid milliseconds count answers flags →
        ∃ ret after, safeTimedReadAllBytes stream valid count milliseconds answers errno
          flags before = some (ret, after)) ∧
      ∀ ret after, safeTimedReadAllBytes stream valid count milliseconds answers errno flags
        before = some (ret, after) → ret.unused = [] →
        (ReadsAll stream valid count milliseconds answers flags before ret after ↔
          Meets true (fun answer => ∀ e, answer = .failed e → e.transient) valid
            milliseconds count answers flags)) ∧
    (∀ buffer sent,
      (Enough false valid milliseconds count answers flags →
        ∃ ret after, safeTimedWriteAllBytes buffer valid count milliseconds answers errno
          flags sent = some (ret, after)) ∧
      ∀ ret after, safeTimedWriteAllBytes buffer valid count milliseconds answers errno flags
        sent = some (ret, after) → ret.unused = [] →
        (WritesAll buffer valid count milliseconds answers flags sent ret after ↔
          Meets false (fun answer => ∀ e, answer = .failed e → e.transient ∨ e = .epipe)
            valid milliseconds count answers flags)) := by
  refine ⟨fun stream before => ⟨fun henough => ?_, fun ret after h hall => ?_⟩,
    fun buffer sent => ⟨fun henough => ?_, fun ret after h hall => ?_⟩⟩
  · exact timedBytes_some before (timed_returns transfersAll_readReady hcount henough)
  · exact readsAll_iff hcount hfits h hall
  · exact timedBytes_some sent (timed_returns transfersAll_writeReady hcount henough)
  · exact writesAll_iff hcount hfits h hall

/-- Three bytes are read by two calls, the second of them after an interruption. -/
theorem transfers_all_iff_twice :
    ReadsAll (fun i => .ofNat (i + 7)) true 3 10
        ⟨0, none, none, none,
          [⟨.ready, .done 2, 0⟩, ⟨.failed .eintr, .done 0, 0⟩, ⟨.ready, .done 1, 0⟩], []⟩ 2
        ⟨fun _ => 0, 0⟩ ⟨3, .eintr, 2, [10, 10, 10], []⟩
        (read (fun i => .ofNat (i + 7)) (read (fun i => .ofNat (i + 7)) ⟨fun _ => 0, 0⟩ 0 2)
          2 1) ↔
      Meets true (fun answer => ∀ e, answer = .failed e → e.transient) true 10 3
        ⟨0, none, none, none,
          [⟨.ready, .done 2, 0⟩, ⟨.failed .eintr, .done 0, 0⟩, ⟨.ready, .done 1, 0⟩], []⟩ 2 :=
  ((transfers_all_iff true 3 10
      ⟨0, none, none, none,
        [⟨.ready, .done 2, 0⟩, ⟨.failed .eintr, .done 0, 0⟩, ⟨.ready, .done 1, 0⟩], []⟩
      (.other 0) 2 (by decide)
      ⟨by simp [Fits, Round.moved, Answer.moved], by rintro n ⟨⟩⟩).1 (fun i => .ofNat (i + 7))
    ⟨fun _ => 0, 0⟩).2 _ _ rfl rfl

/-- Without a time limit, one byte of two is read, and that is all. -/
theorem short_read_is_all : ¬∀ ret after,
    safeTimedReadAllBytes (fun _ => 0) true 2 (-1) ⟨0, none, none, none, [], [.done 1]⟩
      (.other 0) 2 ⟨fun _ => 1, 0⟩ = some (ret, after) →
    ReadsAll (fun _ => 0) true 2 (-1) ⟨0, none, none, none, [], [.done 1]⟩ 2
      ⟨fun _ => 1, 0⟩ ret after := by
  intro h
  obtain ⟨n, htaken, -, hn⟩ := h _ _ rfl
  obtain rfl : 1 = n := htaken.trans (Nat.zero_add n)
  rcases hn.whole (by decide) with hbroken | hclosed
  · rw [Broken, if_pos (by decide)] at hbroken
    obtain ⟨e, ⟨⟩⟩ := hbroken
  · rw [Closed, if_pos (by decide)] at hclosed
    exact absurd hclosed.2 (by decide)

end FlinterSafeIo
