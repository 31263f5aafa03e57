import Mathlib.Data.Nat.Bitwise

/-! # Timed calls and the mode of the descriptor

    The timed calls switch a descriptor to non-blocking mode, try again until they
    have what they want, and switch it back.  They switch it back after their
    loops, though, and most of the errors and all of the time-outs return from
    within: a descriptor that was blocking is non-blocking from then on. -/

namespace FlinterSafeIo

inductive Errno where
  | eintr
  | eagain
  | ewouldblock
  | epipe
  | einprogress
  | etimedout
  | einval
  | other (n : Nat)
deriving DecidableEq, Repr

/-- What `poll` comes to. -/
inductive Poll where
  | failed (e : Errno)
  | timedOut
  | ready
deriving DecidableEq, Repr

/-- What another system call comes to: how many bytes, or which descriptor. -/
inductive Answer where
  | failed (e : Errno)
  | done (n : Nat)
deriving DecidableEq, Repr

/-- One time through a loop: `poll`, the call that is made if it says so, and the
    clock if it is read again. -/
structure Round (κ : Type) where
  poll : Poll
  call : κ
  now : ℤ
deriving DecidableEq, Repr

/-- What all system calls of a timed call come to: the clock, `fcntl` three times,
    the loop, and the call that there is without a time limit. -/
structure Answers (κ : Type) where
  start : ℤ
  getFlags : Option Errno
  setFlags : Option Errno
  restoreFlags : Option Errno
  rounds : List (Round κ)
  untimed : List Answer
deriving DecidableEq, Repr

/-- What is in the local variables of a loop; `polled` is what `poll` was given. -/
structure Locals where
  timeout : ℤ
  remain : Nat
  result : Nat
  errno : Errno
  polled : List ℤ
deriving DecidableEq, Repr

/-- What comes next in a loop: it goes on, or the function is left, by way of its end
    or by a `return` from within. -/
inductive Next where
  | again (l : Locals)
  | leave (atEnd : Bool) (value : ℤ) (errno : Errno)
deriving DecidableEq, Repr

/-- How a loop was left, and the rounds that did not happen. -/
structure Exit (κ : Type) where
  atEnd : Bool
  value : ℤ
  errno : Errno
  polled : List ℤ
  unused : List (Round κ)
deriving DecidableEq, Repr

/-- What the caller sees, what `poll` was given, and the rounds that did not
    happen. -/
structure Return (κ : Type) where
  value : ℤ
  errno : Errno
  flags : Nat
  polled : List ℤ
  unused : List (Round κ)
deriving DecidableEq, Repr

-- ── The code ─────────────────────────────────────────────────────────────────

/-- `O_NONBLOCK`. -/
def oNonblock : Nat := 2048

/-- `safe_calculate_timeout`. -/
def safeCalculateTimeout (start milliseconds now : ℤ) : ℤ :=
  if now < 0 then 0
  else
    let timeout := (now - start).tdiv 1000000
    if timeout < 0 ∨ timeout > milliseconds then 0 else milliseconds - timeout

/-- `safe_read`, `safe_write`, `safe_accept` and `safe_connect`: the loop. -/
def untilUninterrupted : List Answer → Option Answer
  | [] => none
  | .failed .eintr :: rest => untilUninterrupted rest
  | answer :: _ => some answer

/-- `safe_read`, `safe_write`, `safe_accept` and `safe_connect`, with arguments that
    are valid or not. -/
def safeCall (valid : Bool) (answers : List Answer) : Option Answer :=
  if valid then untilUninterrupted answers else some (.failed .einval)

/-- What a call without a time limit returns. -/
def direct {κ : Type} (valid : Bool) (answers : Answers κ) (errno : Errno) (flags : Nat) :
    Option (Return κ) :=
  match safeCall valid answers.untimed with
  | none => none
  | some (.failed e) => some ⟨-1, e, flags, [], answers.rounds⟩
  | some (.done n) => some ⟨n, errno, flags, [], answers.rounds⟩

/-- What a function returns that is left. -/
def Exit.toReturn {κ : Type} (exit : Exit κ) (flags : Nat) : Return κ :=
  ⟨exit.value, exit.errno, flags, exit.polled, exit.unused⟩

/-- The timed calls, from `F_GETFL` on: `body` is in non-blocking mode. -/
def nonBlocking {κ : Type} (answers : Answers κ) (flags : Nat)
    (body : Option (Exit κ)) : Option (Return κ) :=
  match answers.getFlags with
  | some e => some ⟨-1, e, flags, [], answers.rounds⟩
  | none =>
      if flags &&& oNonblock = 0 then
        match answers.setFlags with
        | some e => some ⟨-1, e, flags, [], answers.rounds⟩
        | none =>
            body.map fun exit =>
              if exit.atEnd then
                match answers.restoreFlags with
                | some e => { exit with value := -1, errno := e }.toReturn (flags ||| oNonblock)
                | none => exit.toReturn flags
              else exit.toReturn (flags ||| oNonblock)
      else body.map (·.toReturn flags)

/-- The loops of the timed calls: what comes of an error of `poll`, and what is done
    when it says that the descriptor is ready. -/
def pollLoop {κ : Type} (start milliseconds : ℤ) (failure : Locals → ℤ)
    (ready : Locals → κ → Option Next) : Locals → List (Round κ) → Option (Exit κ)
  | _, [] => none
  | l, r :: rest =>
      let polled := l.polled ++ [l.timeout]
      let timeout := safeCalculateTimeout start milliseconds r.now
      match r.poll with
      | .failed e =>
          if e ≠ .eintr then some ⟨false, failure l, e, polled, rest⟩
          else
            pollLoop start milliseconds failure ready
              { l with timeout := timeout, errno := e, polled := polled } rest
      | .timedOut => some ⟨false, failure l, .etimedout, polled, rest⟩
      | .ready =>
          match ready l r.call with
          | none => none
          | some (.leave atEnd value errno) => some ⟨atEnd, value, errno, polled, rest⟩
          | some (.again l) =>
              pollLoop start milliseconds failure ready
                { l with timeout := timeout, polled := polled } rest

/-- The timed calls that read the clock and have such a loop. -/
def timed {κ : Type} (valid : Bool) (milliseconds : ℤ) (answers : Answers κ)
    (errno : Errno) (flags : Nat) (failure : Locals → ℤ)
    (ready : Locals → κ → Option Next) (count : Nat) : Option (Return κ) :=
  if milliseconds < 0 then direct valid answers errno flags
  else if answers.start < 0 then some ⟨-1, errno, flags, [], answers.rounds⟩
  else
    nonBlocking answers flags
      (pollLoop answers.start milliseconds failure ready
        ⟨milliseconds, count, 0, errno, []⟩ answers.rounds)

/-- `return result`, unless there is none. -/
def resultOf (l : Locals) : ℤ := if l.result = 0 then -1 else l.result

/-- `EINTR`, `EAGAIN` and `EWOULDBLOCK`. -/
def Errno.transient (e : Errno) : Prop := e = .eintr ∨ e = .eagain ∨ e = .ewouldblock

instance (e : Errno) : Decidable e.transient := by
  unfold Errno.transient
  infer_instance

/-- `safe_timed_read_ex`: what is done when there is something to read. -/
def readReady (all : Bool) (l : Locals) : Answer → Option Next
  | .failed e =>
      if e.transient then some (.again { l with errno := e })
      else some (.leave false (resultOf l) e)
  | .done len =>
      if len = 0 then some (.leave true l.result l.errno) -- `hup`
      else
        let l := { l with result := l.result + len, remain := l.remain - len }
        if l.remain = 0 ∨ !all then some (.leave true (resultOf l) l.errno)
        else some (.again l)

/-- `safe_timed_read_ex`. -/
def safeTimedReadEx (valid : Bool) (count : Nat) (milliseconds : ℤ) (all : Bool)
    (answers : Answers Answer) (errno : Errno) (flags : Nat) : Option (Return Answer) :=
  timed valid milliseconds answers errno flags resultOf (readReady all) count

/-- `safe_timed_write_ex`: what is done when something can be written. -/
def writeReady (all : Bool) (l : Locals) : Answer → Option Next
  | .failed e =>
      if e.transient then some (.again { l with errno := e })
      else some (.leave (e = .epipe) (resultOf l) e)
  | .done len =>
      let l := { l with result := l.result + len, remain := l.remain - len }
      if l.remain = 0 ∨ !all then some (.leave true (resultOf l) l.errno)
      else some (.again l)

/-- `safe_timed_write_ex`. -/
def safeTimedWriteEx (valid : Bool) (count : Nat) (milliseconds : ℤ) (all : Bool)
    (answers : Answers Answer) (errno : Errno) (flags : Nat) : Option (Return Answer) :=
  timed valid milliseconds answers errno flags resultOf (writeReady all) count

/-- `safe_timed_accept`: what is done when somebody connects. -/
def acceptReady (valid : Bool) (l : Locals) (answers : List Answer) : Option Next :=
  (safeCall valid answers).map fun answer =>
    match answer with
    | .failed e =>
        if e.transient then .again { l with errno := e } else .leave false (-1) e
    | .done fd => .leave true fd l.errno

/-- `safe_timed_accept`. -/
def safeTimedAccept (valid : Bool) (milliseconds : ℤ) (answers : Answers (List Answer))
    (errno : Errno) (flags : Nat) : Option (Return (List Answer)) :=
  timed valid milliseconds answers errno flags (fun _ => -1) (acceptReady valid) 0

/-- `safe_wait_until_connected`: what is done then, where the answer is that of
    `safe_test_if_connected`. -/
def connectReady (l : Locals) : Option Errno → Option Next
  | some e => some (.leave false (-1) e)
  | none => some (.leave true 0 l.errno)

/-- `safe_wait_until_connected`. -/
def safeWaitUntilConnected (milliseconds : ℤ) (answers : Answers (Option Errno))
    (errno : Errno) : Option (Exit (Option Errno)) :=
  if answers.start < 0 then some ⟨false, -1, errno, [], answers.rounds⟩
  else
    pollLoop answers.start milliseconds (fun _ => -1) connectReady
      ⟨milliseconds, 0, 0, errno, []⟩ answers.rounds

/-- `safe_timed_connect`, where `connected` is what `connect` comes to. -/
def safeTimedConnect (valid : Bool) (milliseconds : ℤ) (connected : Option Errno)
    (answers : Answers (Option Errno)) (errno : Errno) (flags : Nat) :
    Option (Return (Option Errno)) :=
  if milliseconds < 0 then direct valid answers errno flags
  else
    nonBlocking answers flags
      (match connected with
      | some e =>
          if e ≠ .einprogress then some ⟨false, -1, e, [], answers.rounds⟩
          else safeWaitUntilConnected milliseconds answers errno
      | none => some ⟨true, 0, errno, [], answers.rounds⟩)

def safeTimedRead (valid : Bool) (count : Nat) (milliseconds : ℤ)
    (answers : Answers Answer) (errno : Errno) (flags : Nat) : Option (Return Answer) :=
  safeTimedReadEx valid count milliseconds false answers errno flags

def safeTimedReadAll (valid : Bool) (count : Nat) (milliseconds : ℤ)
    (answers : Answers Answer) (errno : Errno) (flags : Nat) : Option (Return Answer) :=
  safeTimedReadEx valid count milliseconds true answers errno flags

def safeTimedRecvfrom (valid : Bool) (count : Nat) (milliseconds : ℤ)
    (answers : Answers Answer) (errno : Errno) (flags : Nat) : Option (Return Answer) :=
  safeTimedReadEx valid count milliseconds false answers errno flags

def safeTimedWrite (valid : Bool) (count : Nat) (milliseconds : ℤ)
    (answers : Answers Answer) (errno : Errno) (flags : Nat) : Option (Return Answer) :=
  safeTimedWriteEx valid count milliseconds false answers errno flags

def safeTimedWriteAll (valid : Bool) (count : Nat) (milliseconds : ℤ)
    (answers : Answers Answer) (errno : Errno) (flags : Nat) : Option (Return Answer) :=
  safeTimedWriteEx valid count milliseconds true answers errno flags

def safeTimedSendto (valid : Bool) (count : Nat) (milliseconds : ℤ)
    (answers : Answers Answer) (errno : Errno) (flags : Nat) : Option (Return Answer) :=
  safeTimedWriteEx valid count milliseconds false answers errno flags

-- ── How the loops are left ───────────────────────────────────────────────────

variable {κ : Type} {l : Locals} {rounds : List (Round κ)} {exit : Exit κ}
variable {answers : Answers κ} {ret : Return κ} {errno : Errno} {flags : Nat}
variable {ready : Locals → κ → Option Next} {failure : Locals → ℤ} {ok : κ → Prop}
variable {start milliseconds : ℤ} {valid : Bool}

/-- A round that a loop goes on after, or is left after by way of the end. -/
def Round.Passes (ok : κ → Prop) (r : Round κ) : Prop :=
  r.poll = .failed .eintr ∨ r.poll = .ready ∧ ok r.call

/-- The calls after which a loop goes on, or is left by way of the end. -/
def Passing (ready : Locals → κ → Option Next) (ok : κ → Prop) : Prop :=
  ∀ l call, match ready l call with
    | none => True
    | some (.again _) => ok call
    | some (.leave atEnd _ _) => atEnd = true ↔ ok call

/-- **A LOOP IS LEFT BY WAY OF THE END** if all its rounds pass. -/
theorem pollLoop_atEnd (hready : Passing ready ok)
    (h : pollLoop start milliseconds failure ready l rounds = some exit)
    (hall : exit.unused = []) :
    exit.atEnd = true ↔ ∀ r ∈ rounds, r.Passes ok := by
  induction rounds generalizing l with
  | nil => cases h
  | cons r rest ih =>
      rw [pollLoop] at h
      rw [List.forall_mem_cons, Round.Passes]
      cases hpoll : r.poll with
      | failed e =>
          rw [hpoll] at h
          dsimp only at h
          by_cases he : e = .eintr
          · subst he
            rw [if_neg (not_not.mpr rfl)] at h
            rw [and_iff_right (.inl rfl)]
            exact ih h
          · rw [if_pos he] at h
            obtain rfl := Option.some.inj h
            refine iff_of_false nofun fun hpasses => ?_
            rcases hpasses.1 with heq | hr
            · exact he (Poll.failed.inj heq)
            · exact absurd hr.1 nofun
      | timedOut =>
          rw [hpoll] at h
          obtain rfl := Option.some.inj h
          refine iff_of_false nofun fun hpasses => ?_
          exact absurd hpasses.1 (not_or.mpr ⟨nofun, fun hr => nomatch hr.1⟩)
      | ready =>
          have hcall := hready l r.call
          rw [hpoll] at h
          dsimp only at h
          rw [or_iff_right nofun, and_iff_right rfl]
          cases hnext : ready l r.call with
          | none =>
              rw [hnext] at h
              cases h
          | some next =>
              rw [hnext] at h hcall
              cases next with
              | again l' => rw [and_iff_right hcall, ih h]
              | leave atEnd value errno =>
                  obtain rfl := Option.some.inj h
                  rw [show rest = [] from hall]
                  exact hcall.trans (and_iff_left nofun).symm

theorem passing_readReady (all : Bool) : Passing (readReady all)
    fun answer => ∀ e, answer = .failed e → e.transient := by
  intro l answer
  cases answer with
  | failed e =>
      rw [readReady]
      by_cases he : e.transient
      · rw [if_pos he]
        rintro _ ⟨⟩
        exact he
      · rw [if_neg he]
        exact iff_of_false nofun fun h => he (h e rfl)
  | done len =>
      rw [readReady]
      by_cases hlen : len = 0
      · rw [if_pos hlen]
        exact iff_of_true rfl nofun
      · rw [if_neg hlen]
        dsimp only
        by_cases hlast : l.remain - len = 0 ∨ !all
        · rw [if_pos hlast]
          exact iff_of_true rfl nofun
        · rw [if_neg hlast]
          nofun

theorem passing_writeReady (all : Bool) : Passing (writeReady all)
    fun answer => ∀ e, answer = .failed e → e.transient ∨ e = .epipe := by
  intro l answer
  cases answer with
  | failed e =>
      rw [writeReady]
      by_cases he : e.transient
      · rw [if_pos he]
        rintro _ ⟨⟩
        exact .inl he
      · rw [if_neg he]
        refine decide_eq_true_iff.trans ⟨fun h => ?_, fun h => (h e rfl).resolve_left he⟩
        rintro _ ⟨⟩
        exact .inr h
  | done len =>
      rw [writeReady]
      dsimp only
      by_cases hlast : l.remain - len = 0 ∨ !all
      · rw [if_pos hlast]
        exact iff_of_true rfl nofun
      · rw [if_neg hlast]
        nofun

theorem passing_acceptReady (valid : Bool) : Passing (acceptReady valid)
    fun calls => ∀ e, safeCall valid calls = some (.failed e) → e.transient := by
  intro l calls
  dsimp only [acceptReady]
  generalize safeCall valid calls = answer
  cases answer with
  | none => trivial
  | some answer =>
      cases answer with
      | failed e =>
          dsimp only [Option.map_some]
          by_cases he : e.transient
          · rw [if_pos he]
            rintro _ ⟨⟩
            exact he
          · rw [if_neg he]
            exact iff_of_false nofun fun h => he (h e rfl)
      | done fd => exact iff_of_true rfl nofun

theorem passing_connectReady : Passing connectReady (· = none) := by
  intro l answer
  cases answer with
  | none => exact iff_of_true rfl rfl
  | some e => exact iff_of_false nofun nofun

-- ── The mode afterwards ──────────────────────────────────────────────────────

/-- The descriptor is not switched to another mode: `fcntl` fails, or there is
    nothing to switch. -/
def NotSwitched (answers : Answers κ) (flags : Nat) : Prop :=
  answers.getFlags ≠ none ∨ flags &&& oNonblock ≠ 0 ∨ answers.setFlags ≠ none

theorem or_oNonblock_ne (h : flags &&& oNonblock = 0) : flags ||| oNonblock ≠ flags := by
  intro heq
  have hand : (flags ||| oNonblock) &&& oNonblock = oNonblock := by
    rw [Nat.and_or_distrib_right, h, Nat.and_self, Nat.zero_or]
  rw [heq, h] at hand
  exact absurd hand (by decide)

/-- Once it is switched, it depends on how the function is left. -/
theorem nonBlocking_flags {body : Option (Exit κ)} {P : Prop}
    (hrestore : answers.restoreFlags = none)
    (h : nonBlocking answers flags body = some ret)
    (hbody : ∀ exit, body = some exit → exit.unused = ret.unused →
      (exit.atEnd = true ↔ P)) :
    ret.flags = flags ↔ NotSwitched answers flags ∨ P := by
  rw [nonBlocking] at h
  cases hget : answers.getFlags with
  | some e =>
      rw [hget] at h
      obtain rfl := Option.some.inj h
      exact iff_of_true rfl (.inl (.inl (by rw [hget]; nofun)))
  | none =>
      rw [hget] at h
      dsimp only at h
      by_cases hflags : flags &&& oNonblock = 0
      · rw [if_pos hflags] at h
        cases hset : answers.setFlags with
        | some e =>
            rw [hset] at h
            obtain rfl := Option.some.inj h
            exact iff_of_true rfl (.inl (.inr (.inr (by rw [hset]; nofun))))
        | none =>
            rw [hset, hrestore] at h
            obtain ⟨exit, hexit, rfl⟩ := Option.map_eq_some_iff.mp h
            have hnot : ¬NotSwitched answers flags := by
              rw [NotSwitched, hget, hset]
              simpa using hflags
            rw [or_iff_right hnot]
            cases hend : exit.atEnd with
            | true =>
                refine iff_of_true (by rw [if_pos rfl]; rfl) ?_
                exact (hbody exit hexit (by rw [hend, if_pos rfl]; rfl)).mp hend
            | false =>
                refine iff_of_false (or_oNonblock_ne hflags) fun hP => ?_
                have htrue := (hbody exit hexit (by rw [hend]; rfl)).mpr hP
                exact absurd (hend.symm.trans htrue) nofun
      · rw [if_neg hflags] at h
        obtain ⟨exit, -, rfl⟩ := Option.map_eq_some_iff.mp h
        exact iff_of_true rfl (.inl (.inr (.inl hflags)))

theorem direct_flags (h : direct valid answers errno flags = some ret) :
    ret.flags = flags := by
  rw [direct] at h
  split at h
  · cases h
  · obtain rfl := Option.some.inj h
    rfl
  · obtain rfl := Option.some.inj h
    rfl

/-- **THE MODE AFTER A TIMED CALL** with a loop. -/
theorem timed_flags {count : Nat} (hready : Passing ready ok)
    (hrestore : answers.restoreFlags = none)
    (h : timed valid milliseconds answers errno flags failure ready count = some ret)
    (hall : ret.unused = []) :
    ret.flags = flags ↔
      milliseconds < 0 ∨ answers.start < 0 ∨ NotSwitched answers flags ∨
        ∀ r ∈ answers.rounds, r.Passes ok := by
  rw [timed] at h
  by_cases hms : milliseconds < 0
  · rw [if_pos hms] at h
    exact iff_of_true (direct_flags h) (.inl hms)
  · rw [if_neg hms] at h
    by_cases hstart : answers.start < 0
    · rw [if_pos hstart] at h
      obtain rfl := Option.some.inj h
      exact iff_of_true rfl (.inr (.inl hstart))
    · rw [if_neg hstart] at h
      rw [or_iff_right hms, or_iff_right hstart]
      exact nonBlocking_flags hrestore h fun exit hexit hunused =>
        pollLoop_atEnd hready hexit (hunused.trans hall)

/-- **THE MODE AFTER CONNECTING.** -/
theorem safeTimedConnect_flags {connected : Option Errno} {answers : Answers (Option Errno)}
    {ret : Return (Option Errno)} (hrestore : answers.restoreFlags = none)
    (h : safeTimedConnect valid milliseconds connected answers errno flags = some ret)
    (hall : ret.unused = []) :
    ret.flags = flags ↔
      milliseconds < 0 ∨ NotSwitched answers flags ∨ connected = none ∨
        connected = some .einprogress ∧ 0 ≤ answers.start ∧
          ∀ r ∈ answers.rounds, r.Passes (· = none) := by
  unfold safeTimedConnect at h
  by_cases hms : milliseconds < 0
  · rw [if_pos hms] at h
    exact iff_of_true (direct_flags h) (.inl hms)
  · rw [if_neg hms] at h
    rw [or_iff_right hms]
    refine nonBlocking_flags hrestore h fun exit hexit hunused => ?_
    cases connected with
    | none =>
        obtain rfl := Option.some.inj hexit
        exact iff_of_true rfl (.inl rfl)
    | some e =>
        rw [or_iff_right nofun]
        dsimp only at hexit
        by_cases he : e = .einprogress
        · rw [if_neg (not_not.mpr he), safeWaitUntilConnected] at hexit
          rw [and_iff_right (congrArg some he)]
          by_cases hstart : answers.start < 0
          · rw [if_pos hstart] at hexit
            obtain rfl := Option.some.inj hexit
            exact iff_of_false nofun fun hwaited => absurd hwaited.1 (Int.not_le.mpr hstart)
          · rw [if_neg hstart] at hexit
            rw [and_iff_right (Int.not_lt.mp hstart)]
            exact pollLoop_atEnd passing_connectReady hexit (hunused.trans hall)
        · rw [if_pos he] at hexit
          obtain rfl := Option.some.inj hexit
          exact iff_of_false nofun fun h => he (Option.some.inj h.1)

/-- **WHEN A TIMED CALL LEAVES THE MODE AS IT WAS.** -/
theorem mode_kept_iff (valid : Bool) (count : Nat) (milliseconds : ℤ) (errno : Errno)
    (flags : Nat) :
    (∀ call ∈ [safeTimedRead, safeTimedReadAll, safeTimedRecvfrom], ∀ answers ret,
      answers.restoreFlags = none →
      call valid count milliseconds answers errno flags = some ret → ret.unused = [] →
      (ret.flags = flags ↔
        milliseconds < 0 ∨ answers.start < 0 ∨ NotSwitched answers flags ∨
          ∀ r ∈ answers.rounds, r.Passes
            fun answer => ∀ e, answer = .failed e → e.transient)) ∧
    (∀ call ∈ [safeTimedWrite, safeTimedWriteAll, safeTimedSendto], ∀ answers ret,
      answers.restoreFlags = none →
      call valid count milliseconds answers errno flags = some ret → ret.unused = [] →
      (ret.flags = flags ↔
        milliseconds < 0 ∨ answers.start < 0 ∨ NotSwitched answers flags ∨
          ∀ r ∈ answers.rounds, r.Passes
            fun answer => ∀ e, answer = .failed e → e.transient ∨ e = .epipe)) ∧
    (∀ answers ret, answers.restoreFlags = none →
      safeTimedAccept valid milliseconds answers errno flags = some ret → ret.unused = [] →
      (ret.flags = flags ↔
        milliseconds < 0 ∨ answers.start < 0 ∨ NotSwitched answers flags ∨
          ∀ r ∈ answers.rounds, r.Passes
            fun calls => ∀ e, safeCall valid calls = some (.failed e) → e.transient)) ∧
    (∀ connected answers ret, answers.restoreFlags = none →
      safeTimedConnect valid milliseconds connected answers errno flags = some ret →
      ret.unused = [] →
      (ret.flags = flags ↔
        milliseconds < 0 ∨ NotSwitched answers flags ∨ connected = none ∨
          connected = some .einprogress ∧ 0 ≤ answers.start ∧
            ∀ r ∈ answers.rounds, r.Passes (· = none))) := by
  refine ⟨?_, ?_, ?_, ?_⟩
  · intro call hcall answers ret hrestore h hall
    simp only [List.mem_cons, List.not_mem_nil, or_false] at hcall
    rcases hcall with rfl | rfl | rfl
    · exact timed_flags (passing_readReady false) hrestore h hall
    · exact timed_flags (passing_readReady true) hrestore h hall
    · exact timed_flags (passing_readReady false) hrestore h hall
  · intro call hcall answers ret hrestore h hall
    simp only [List.mem_cons, List.not_mem_nil, or_false] at hcall
    rcases hcall with rfl | rfl | rfl
    · exact timed_flags (passing_writeReady false) hrestore h hall
    · exact timed_flags (passing_writeReady true) hrestore h hall
    · exact timed_flags (passing_writeReady false) hrestore h hall
  · intro answers ret hrestore h hall
    exact timed_flags (passing_acceptReady valid) hrestore h hall
  · intro connected answers ret hrestore h hall
    exact safeTimedConnect_flags hrestore h hall

/-- A connection that is made in time, with a descriptor that was blocking. -/
theorem mode_kept_connected :
    (⟨0, .other 0, 2, [10], []⟩ : Return (Option Errno)).flags = 2 ↔
      (10 : ℤ) < 0 ∨
        NotSwitched (⟨0, none, none, none, [⟨.ready, none, 0⟩], []⟩ :
          Answers (Option Errno)) 2 ∨
        some Errno.einprogress = none ∨
        some Errno.einprogress = some .einprogress ∧ (0 : ℤ) ≤ 0 ∧
          ∀ r ∈ [(⟨.ready, none, 0⟩ : Round (Option Errno))], r.Passes (· = none) :=
  (mode_kept_iff true 0 10 (.other 0) 2).2.2.2 (some .einprogress)
    ⟨0, none, none, none, [⟨.ready, none, 0⟩], []⟩ _ rfl rfl rfl

/-- Reading from a blocking descriptor times out, and leaves it non-blocking. -/
theorem mode_lost : ¬∀ ret,
    safeTimedRead true 1 10 ⟨0, none, none, none, [⟨.timedOut, .done 0, 0⟩], []⟩
      (.other 0) 2 = some ret → ret.flags = 2 := by
  intro h
  exact absurd (h _ rfl) (by decide)

end FlinterSafeIo
