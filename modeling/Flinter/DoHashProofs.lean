import Flinter.MsleepProofs
import Flinter.RunProofs
import Mathlib.Tactic.Ring
import Mathlib.Tactic.Linarith

/-! # Hashing a file at a limited rate

    `do_hash` reads a file in turns of 20 milliseconds.  With a limit a turn may
    read a fiftieth of it: behind that much it sleeps until the next turn, and a
    turn that is over gives the next one its share anew.  A read of no bytes is
    the end of the file, so the share that is left must never be nothing when
    the file is read again.

    The hash function is a parameter, as is what each call of a round answers.
    In every run every read asks for something, and success means that the whole
    file was hashed, in order; no turn reads more than its share as long as
    `pselect` does not fail in a sleep (`rate_limited`). -/

namespace FlinterDoHash

open FlinterMsleep Runs

abbrev Bytes := List UInt8

/-- `hash_init`, `hash_update` and `hash_final`. -/
structure HashFunction where
  Context : Type
  init : Option Context
  update : Context → Bytes → Option Context
  final : Context → Option Bytes

/-- To update with two pieces is to update with both at once. -/
structure HashFunction.Lawful (H : HashFunction) : Prop where
  nil : ∀ ctx, H.update ctx [] = some ctx
  append : ∀ ctx a b, H.update ctx (a ++ b) = (H.update ctx a).bind (H.update · b)

def TICK : Int := 20000000
def TICK_MS : Int := 20

/-- `sizeof(buffer)`. -/
def bufferSize : Nat := 8192

/-- What `do_hash` is called with, and what it took from the clock: `start` and
    `deadline`. -/
structure Job where
  limitRate : Int
  milliseconds : Int
  start : Int
  deadline : Int

/-- `turn_max`. -/
def Job.turnMax (job : Job) : Int :=
  if job.limitRate < 1024 then -1
  else Int.tdiv job.limitRate (Int.tdiv 1000000000 TICK)

/-- The turn a time belongs to. -/
def Job.tick (job : Job) (t : Int) : Int := Int.tdiv (t - job.start) TICK

/-- The milliseconds to the next turn. -/
def Job.toNextTick (job : Job) (now : Int) : Int :=
  TICK_MS - Int.tmod (Int.tdiv (now - job.start) 1000000) TICK_MS

/-- What `safe_timed_read` says: some bytes, that it is to be tried again, or
    another error. -/
inductive Got where
  | bytes (b : Bytes)
  | again
  | failed
deriving DecidableEq, Repr

def Got.length : Got → Nat
  | .bytes b => b.length
  | _ => 0

/-- A read: when its turn began, the size it is asked for, and what it got. -/
structure Read where
  turn : Int
  asked : Nat
  got : Nat
deriving DecidableEq, Repr

/-- What the calls of one round answer: the clock, the read for the size it is
    asked for, the clock again, and a sleep. -/
structure Round where
  turn : Int
  read : Nat → Got
  now : Int
  asleep : Int
  naps : List Nap

/-- How the loop ends. -/
inductive Exit where
  | whole
  | timedOut
  | failed
deriving DecidableEq, Repr

/-- `turn_remain`, the context, and (ghost) the bytes it was updated with, all
    reads, and what the clock said last. -/
structure State (H : HashFunction) where
  remain : Int
  ctx : H.Context
  hashed : Bytes
  log : List Read
  clock : Int
  exit : Option Exit

variable {H : HashFunction}

/-- `turn_now`: a `turn_remain` below zero would be a large `size_t`. -/
def turnNow (job : Job) (s : State H) : Nat :=
  if 0 ≤ job.turnMax ∧ 0 ≤ s.remain ∧ s.remain < bufferSize then s.remain.toNat
  else bufferSize

/-- The end of a round that read `ret` bytes. -/
def limit (job : Job) (s : State H) (r : Round) (ret : Nat) : State H :=
  if job.turnMax < 0 then { s with clock := r.turn }
  else
    let remain := s.remain - ret
    -- We've crossed a limit tick border.
    if job.tick r.turn ≠ job.tick r.now then
      { s with remain := job.turnMax, clock := r.now }
    else if remain = 0 then
      { s with
        remain := job.turnMax
        clock := match msleepSignal (job.toNextTick r.now) false true r.asleep r.naps with
          | some ret => ret.time
          | none => r.now }
    else { s with remain := remain, clock := r.now }

/-- One round of the loop. -/
def round (job : Job) (s : State H) (r : Round) : State H :=
  let s := { s with clock := r.turn }
  if 0 < job.milliseconds ∧ job.deadline ≤ r.turn then { s with exit := some .timedOut }
  else
    let asked := turnNow job s
    let got := r.read asked
    let s := { s with log := s.log ++ [⟨r.turn, asked, got.length⟩] }
    match got with
    | .again => s
    | .failed => { s with exit := some .failed }
    | .bytes [] => { s with exit := some .whole }
    | .bytes (b :: bs) =>
      match H.update s.ctx (b :: bs) with
      | none => { s with exit := some .failed }
      | some ctx =>
        limit job { s with ctx := ctx, hashed := s.hashed ++ b :: bs } r (bs.length + 1)

/-- The clock does not go back; a read gives the next bytes of the file, none
    only at its end or if none are asked for; a sleep ends. -/
structure Timely (job : Job) (file : Bytes) (s : State H) (r : Round) : Prop where
  turn : s.clock ≤ r.turn
  now : r.turn ≤ r.now
  asleep : r.now ≤ r.asleep
  read : ∀ b, r.read (turnNow job s) = .bytes b →
    b.length ≤ turnNow job s ∧ b <+: file.drop s.hashed.length ∧
    (b = [] → turnNow job s = 0 ∨ file.length ≤ s.hashed.length)
  naps : Honest (r.asleep + job.toNextTick r.now * 1000000) r.asleep r.naps
  wakes : ∃ ret, msleepSignal (job.toNextTick r.now) false true r.asleep r.naps = some ret

/-- `pselect` does not fail in the sleep of the round. -/
def Sleeps (job : Job) (_ : State H) (r : Round) : Prop :=
  ∀ ret, msleepSignal (job.toNextTick r.now) false true r.asleep r.naps = some ret →
    0 ≤ ret.milliseconds

/-- The runs of the loop over a file. -/
def hashing (job : Job) (H : HashFunction) (file : Bytes) : System (State H) Round where
  init := fun s => H.init = some s.ctx ∧ s.remain = job.turnMax ∧ s.hashed = [] ∧
    s.log = [] ∧ s.clock = job.start ∧ s.exit = none
  step := fun s r s' => s.exit = none ∧ Timely job file s r ∧ s' = round job s r

/-- `TABLE`. -/
def table : List Char :=
  ['0', '1', '2', '3', '4', '5', '6', '7', '8', '9', 'a', 'b', 'c', 'd', 'e', 'f']

/-- Two digits for each byte. -/
def hexText (digest : Bytes) : List Char :=
  digest.flatMap fun b =>
    [table.getD (b.toNat / 16) '0', table.getD (b.toNat % 16) '0']

/-- What is in `output` when `do_hash` returns zero. -/
def State.output (s : State H) : Option (List Char) :=
  match s.exit with
  | some .whole => (H.final s.ctx).map hexText
  | _ => none

/-- The bytes read in a turn. -/
def readIn (job : Job) (k : Int) (log : List Read) : Nat :=
  ((log.filter fun e => job.tick e.turn = k).map Read.got).sum

/-- All the bytes read. -/
def readAll (log : List Read) : Nat := (log.map Read.got).sum

-- ── Turns ────────────────────────────────────────────────────────────────────

variable {job : Job}

theorem tick_mono {t t' : Int} (h : t ≤ t') : job.tick t ≤ job.tick t' :=
  Int.tdiv_le_tdiv (by decide) (by omega)

theorem tick_start : job.tick job.start = 0 := by
  rw [Job.tick, Int.sub_self]
  rfl

/-- The next turn has begun behind that many milliseconds. -/
theorem tick_next {now wake : Int} (hstart : job.start ≤ now)
    (hwake : now + job.toNextTick now * 1000000 ≤ wake) : job.tick now < job.tick wake := by
  have hd : 0 ≤ now - job.start := by omega
  have hw : 0 ≤ wake - job.start := by
    have hm := Int.tmod_lt_of_pos (Int.tdiv (now - job.start) 1000000)
      (by decide : (0 : Int) < TICK_MS)
    rw [Job.toNextTick] at hwake
    omega
  rw [Job.toNextTick, Int.tdiv_eq_ediv_of_nonneg hd, TICK_MS,
    Int.tmod_eq_emod_of_nonneg (by omega)] at hwake
  rw [Job.tick, Job.tick, Int.tdiv_eq_ediv_of_nonneg hd, Int.tdiv_eq_ediv_of_nonneg hw, TICK]
  omega

theorem toNextTick_pos {now : Int} : 0 < job.toNextTick now := by
  have hm := Int.tmod_lt_of_pos (Int.tdiv (now - job.start) 1000000)
    (by decide : (0 : Int) < TICK_MS)
  rw [Job.toNextTick]
  omega

theorem turnMax_pos (h : 0 ≤ job.turnMax) : 1 ≤ job.turnMax := by
  rw [Job.turnMax] at h ⊢
  split at h
  next hlow => exact absurd h (by decide)
  next hlow =>
    rw [if_neg hlow, Int.tdiv_eq_ediv_of_nonneg (by omega)]
    have hfifty : Int.tdiv 1000000000 TICK = 50 := by decide
    rw [hfifty]
    omega

-- ── What was read ────────────────────────────────────────────────────────────

theorem readIn_snoc (k : Int) (log : List Read) (e : Read) :
    readIn job k (log ++ [e])
      = readIn job k log + if job.tick e.turn = k then e.got else 0 := by
  rw [readIn, List.filter_append, List.map_append, List.sum_append]
  by_cases hk : job.tick e.turn = k
  · rw [if_pos hk, List.filter_cons_of_pos (by simpa using hk)]
    rfl
  · rw [if_neg hk, List.filter_cons_of_neg (by simpa using hk)]
    rfl

theorem readAll_snoc (log : List Read) (e : Read) :
    readAll (log ++ [e]) = readAll log + e.got := by
  rw [readAll, List.map_append, List.sum_append]
  rfl

/-- A turn that has not begun has read nothing. -/
theorem readIn_later {k : Int} {log : List Read}
    (h : ∀ e ∈ log, job.tick e.turn < k) : readIn job k log = 0 := by
  have hnone : (log.filter fun e => job.tick e.turn = k) = [] := by
    refine List.filter_eq_nil_iff.mpr fun e he => ?_
    have hlt := h e he
    simpa using hlt.ne
  rw [readIn, hnone]
  rfl

-- ── The invariant ────────────────────────────────────────────────────────────

/-- The share of a turn, and what it was spent on.  `remain` may be nothing in
    the middle of a round. -/
structure Spends (job : Job) (s : State H) : Prop where
  clock : job.start ≤ s.clock
  log : ∀ e ∈ s.log, job.tick e.turn ≤ job.tick s.clock
  room : 0 ≤ s.remain ∧ s.remain ≤ job.turnMax
  spent : (readIn job (job.tick s.clock) s.log : Int) ≤ job.turnMax - s.remain
  rate : ∀ k, (readIn job k s.log : Int) ≤ job.turnMax
  total : (readAll s.log : Int) + s.remain ≤ job.turnMax * (job.tick s.clock + 1)

/-- A read asks for something that there is room for, in time. -/
structure Asked (job : Job) (e : Read) : Prop where
  pos : 1 ≤ e.asked
  room : e.asked ≤ bufferSize
  got : e.got ≤ e.asked
  inTime : 0 < job.milliseconds → e.turn < job.deadline

/-- What was hashed is the front of the file that was read, and between two rounds
    the share is not used up. -/
structure Ok (job : Job) (file : Bytes) (s : State H) : Prop where
  front : s.hashed <+: file
  ctx : H.init.bind (H.update · s.hashed) = some s.ctx
  whole : s.exit = some .whole → s.hashed = file
  asked : ∀ e ∈ s.log, Asked job e
  remain : 0 ≤ job.turnMax → 1 ≤ s.remain

/-- Time passes. -/
theorem Spends.wait {s : State H} (h : Spends job s) {t : Int} (ht : s.clock ≤ t) :
    Spends job { s with clock := t } where
  clock := h.clock.trans ht
  log := fun e he => (h.log e he).trans (tick_mono ht)
  room := h.room
  spent := by
    show (readIn job (job.tick t) s.log : Int) ≤ _
    have hmono : job.tick s.clock ≤ job.tick t := tick_mono ht
    rcases hmono.eq_or_lt with heq | hlt
    · rw [← heq]
      exact h.spent
    · rw [readIn_later fun e he => (h.log e he).trans_lt hlt]
      exact Int.sub_nonneg.mpr h.room.2
  rate := h.rate
  total := by
    have hmono : job.tick s.clock ≤ job.tick t := tick_mono ht
    have hmul := mul_le_mul_of_nonneg_left (add_le_add_left hmono 1)
      (h.room.1.trans h.room.2)
    exact h.total.trans hmul

/-- Some of the share is spent in the turn that it is. -/
theorem Spends.read {s : State H} (h : Spends job s) {e : Read} (he : e.turn = s.clock)
    (hn : (e.got : Int) ≤ s.remain) (ctx : H.Context) (hashed : Bytes)
    (exit : Option Exit) :
    Spends job { s with
      remain := s.remain - e.got
      ctx := ctx
      hashed := hashed
      log := s.log ++ [e]
      exit := exit } where
  clock := h.clock
  log := by
    intro e' he'
    rcases List.mem_append.mp he' with hold | hnew
    · exact h.log e' hold
    · rw [List.mem_singleton.mp hnew, he]
  room := ⟨by dsimp only; omega, by have := h.room.2; dsimp only; omega⟩
  spent := by
    have hspent := h.spent
    show (readIn job (job.tick s.clock) (s.log ++ [e]) : Int) ≤ _
    rw [readIn_snoc, he, if_pos rfl]
    push_cast
    omega
  rate := by
    intro k
    have hspent := h.spent
    have hrate := h.rate k
    show (readIn job k (s.log ++ [e]) : Int) ≤ _
    rw [readIn_snoc, he]
    split
    next hk =>
      rw [← hk]
      push_cast
      omega
    · push_cast
      omega
  total := by
    have htotal := h.total
    show (readAll (s.log ++ [e]) : Int) + (s.remain - e.got) ≤ _
    rw [readAll_snoc]
    push_cast
    linarith

/-- A new turn has its share anew. -/
theorem Spends.renew {s : State H} (h : Spends job s) {t : Int}
    (ht : job.tick s.clock < job.tick t) (hclock : s.clock ≤ t) :
    Spends job { s with remain := job.turnMax, clock := t } where
  clock := h.clock.trans hclock
  log := fun e he => (h.log e he).trans ht.le
  room := ⟨h.room.1.trans h.room.2, le_refl _⟩
  spent := by
    show (readIn job (job.tick t) s.log : Int) ≤ _
    rw [readIn_later fun e he => (h.log e he).trans_lt ht]
    exact Int.sub_nonneg.mpr (le_refl _)
  rate := h.rate
  total := by
    have htotal := h.total
    have hmax := h.room.1.trans h.room.2
    have hmul := mul_le_mul_of_nonneg_left (Int.add_one_le_of_lt ht) hmax
    show (readAll s.log : Int) + job.turnMax ≤ job.turnMax * (job.tick t + 1)
    have hroom := h.room.1
    rw [mul_add, mul_one]
    linarith

/-- The sleep of a round lasts until the next turn. -/
theorem Timely.next_turn {file : Bytes} {s : State H} {r : Round} (ht : Timely job file s r)
    (hsleeps : Sleeps job s r) (hclock : job.start ≤ s.clock) :
    ∃ ret, msleepSignal (job.toNextTick r.now) false true r.asleep r.naps = some ret ∧
      job.tick r.now < job.tick ret.time ∧ r.now ≤ ret.time := by
  obtain ⟨ret, hret⟩ := ht.wakes
  have hok := hsleeps ret hret
  have hstart : job.start ≤ r.now := (hclock.trans ht.turn).trans ht.now
  have hpos : 0 < job.toNextTick r.now := toNextTick_pos
  have hloop := hret
  rw [msleepSignal, if_neg (Int.not_le.mpr hpos)] at hloop
  obtain ⟨htime, hzero, hrest⟩ := msleepLoop_spec ht.naps hloop
  -- it is not alertable, so it says zero
  have hnone : ret.milliseconds = 0 := by
    by_contra hne
    exact absurd (hrest (by omega)).1 (by decide)
  have hlate := hzero hnone
  have hasleep := ht.asleep
  exact ⟨ret, hret, tick_next hstart (by omega), by omega⟩

/-- A read always asks for something, and for no more than the share. -/
theorem turnNow_spec {s : State H} (h : 0 ≤ job.turnMax → 1 ≤ s.remain) :
    1 ≤ turnNow job s ∧ turnNow job s ≤ bufferSize ∧
      (0 ≤ job.turnMax → (turnNow job s : Int) ≤ s.remain) := by
  rw [turnNow]
  split
  next hlow =>
    have hone := h hlow.1
    omega
  next hhigh =>
    refine ⟨by decide, le_refl _, fun hmax => ?_⟩
    have hone := h hmax
    have hbig : ¬ s.remain < bufferSize := fun hlt => hhigh ⟨hmax, by omega, hlt⟩
    omega

-- ── Every run ────────────────────────────────────────────────────────────────

/-- The end of a round touches the share and the clock only. -/
theorem limit_world (s : State H) (r : Round) (n : Nat) : ∃ remain clock,
    limit job s r n = { s with remain := remain, clock := clock } := by
  rw [limit]
  split
  · exact ⟨_, _, rfl⟩
  dsimp only
  split
  · exact ⟨_, _, rfl⟩
  split
  · exact ⟨_, _, rfl⟩
  · exact ⟨_, _, rfl⟩

/-- And leaves a share for the next one. -/
theorem limit_remain {s : State H} {r : Round} {n : Nat} (hmax : 0 ≤ job.turnMax)
    (hn : (n : Int) ≤ s.remain) : 1 ≤ (limit job s r n).remain := by
  have hpos := turnMax_pos hmax
  rw [limit, if_neg (Int.not_lt.mpr hmax)]
  dsimp only
  split
  · exact hpos
  split
  · exact hpos
  · dsimp only
    omega

/-- A read is as it should be. -/
theorem Timely.asked {file : Bytes} {s : State H} {r : Round} (ht : Timely job file s r)
    (h : 0 ≤ job.turnMax → 1 ≤ s.remain)
    (htime : 0 < job.milliseconds → r.turn < job.deadline) :
    Asked job ⟨r.turn, turnNow job s, (r.read (turnNow job s)).length⟩ := by
  obtain ⟨hone, hmost, -⟩ := turnNow_spec h
  refine ⟨hone, hmost, ?_, htime⟩
  show (r.read (turnNow job s)).length ≤ turnNow job s
  cases hgot : r.read (turnNow job s) with
  | bytes b => exact (ht.read b hgot).1
  | again => exact Nat.zero_le _
  | failed => exact Nat.zero_le _

theorem Ok.logged {file : Bytes} {s : State H} (h : Ok job file s) {e : Read}
    (he : Asked job e) (clock : Int) :
    Ok job file { s with log := s.log ++ [e], clock := clock } where
  front := h.front
  ctx := h.ctx
  whole := h.whole
  asked := by
    intro e' he'
    rcases List.mem_append.mp he' with hold | hnew
    · exact h.asked e' hold
    · rw [List.mem_singleton.mp hnew]
      exact he
  remain := h.remain

/-- The loop ends where it is. -/
theorem Ok.ends {file : Bytes} {s : State H} (h : Ok job file s) {exit : Exit}
    (hwhole : exit = .whole → s.hashed = file) :
    Ok job file { s with exit := some exit } :=
  ⟨h.front, h.ctx, fun hexit => hwhole (Option.some.inj hexit), h.asked, h.remain⟩

/-- The bytes of a read go behind those before. -/
theorem Ok.read {file : Bytes} {s : State H} (h : Ok job file s) (hH : H.Lawful)
    {bytes : Bytes} {ctx : H.Context} (hnext : bytes <+: file.drop s.hashed.length)
    (hupdate : H.update s.ctx bytes = some ctx) (hopen : s.exit = none)
    {remain : Int} (hremain : 0 ≤ job.turnMax → 1 ≤ remain) (clock : Int) :
    Ok job file { s with
      remain := remain
      ctx := ctx
      hashed := s.hashed ++ bytes
      clock := clock } where
  front := by
    obtain ⟨rest, hrest⟩ := h.front
    rw [← hrest, List.drop_left] at hnext
    obtain ⟨rest', rfl⟩ := hnext
    exact ⟨rest', by rw [← hrest, List.append_assoc]⟩
  ctx := by
    have hctx := h.ctx
    show H.init.bind (H.update · (s.hashed ++ bytes)) = some ctx
    obtain ⟨c₀, h₀, hc⟩ := Option.bind_eq_some_iff.mp hctx
    rw [h₀, Option.bind_some, hH.append, hc, Option.bind_some, hupdate]
  whole := by
    intro hexit
    rw [show _ = s.exit from rfl, hopen] at hexit
    cases hexit
  asked := h.asked
  remain := hremain

/-- **ONE ROUND** keeps the invariant. -/
theorem Ok.round {file : Bytes} {s : State H} (h : Ok job file s) (hH : H.Lawful)
    {r : Round} (hopen : s.exit = none) (ht : Timely job file s r) :
    Ok job file (round job s r) := by
  obtain ⟨hone, -, hshare⟩ := turnNow_spec h.remain
  have hturn : turnNow job { s with clock := r.turn } = turnNow job s := rfl
  rw [FlinterDoHash.round]
  dsimp only
  rw [hturn]
  split
  next =>
    have hend : Ok job file { s with exit := some .timedOut } :=
      h.ends fun hexit => by cases hexit
    exact ⟨hend.front, hend.ctx, hend.whole, hend.asked, hend.remain⟩
  next hdead =>
  have htime : 0 < job.milliseconds → r.turn < job.deadline := fun hms =>
    Int.not_le.mp fun hle => hdead ⟨hms, hle⟩
  have hlogged := h.logged (ht.asked h.remain htime) r.turn
  cases hgot : r.read (turnNow job s) with
  | again =>
      rw [hgot] at hlogged
      exact hlogged
  | failed =>
      rw [hgot] at hlogged
      exact hlogged.ends fun hexit => by cases hexit
  | bytes bytes =>
      obtain ⟨hlen, hnext, hempty⟩ := ht.read bytes hgot
      rw [hgot] at hlogged
      cases bytes with
      | nil =>
          -- something was asked for, so this is the end of the file
          have hall : file.length ≤ s.hashed.length := (hempty rfl).resolve_left (by omega)
          exact hlogged.ends fun _ => h.front.eq_of_length_le hall
      | cons b bs =>
          dsimp only
          split
          · exact hlogged.ends fun hexit => by cases hexit
          next ctx hupdate =>
            generalize hlast : ({ s with
              clock := r.turn
              log := s.log ++ [⟨r.turn, turnNow job s, (Got.bytes (b :: bs)).length⟩]
              ctx := ctx
              hashed := s.hashed ++ b :: bs } : State H) = last
            obtain ⟨remain, clock, heq⟩ : ∃ remain clock,
                limit job last r (bs.length + 1) =
                  { last with remain := remain, clock := clock } :=
              limit_world last r (bs.length + 1)
            have hremain : 0 ≤ job.turnMax → 1 ≤ remain := by
              intro hmax
              have hle := hshare hmax
              rw [List.length_cons] at hlen
              have hlimit := limit_remain (s := last) (r := r) (n := bs.length + 1) hmax
                (by rw [← hlast]; push_cast; omega)
              rw [heq] at hlimit
              exact hlimit
            rw [heq, ← hlast]
            exact hlogged.read hH hnext hupdate hopen hremain clock

theorem ok_of_reachable {H : HashFunction} (hH : H.Lawful) {file : Bytes} {s : State H}
    (hr : Reachable (hashing job H file) s) : Ok job file s := by
  refine hr.invariant (I := Ok job file) ?_ ?_
  · rintro s ⟨hinit, hremain, hhashed, hlog, -, hexit⟩
    refine ⟨?_, ?_, ?_, ?_, fun hmax => ?_⟩
    · rw [hhashed]
      exact List.nil_prefix
    · rw [hinit, hhashed, Option.bind_some, hH.nil]
    · rw [hexit]
      exact fun hw => (by cases hw)
    · rw [hlog]
      exact fun _ he => absurd he List.not_mem_nil
    · rw [hremain]
      exact turnMax_pos hmax
  · rintro s r s' _ hi ⟨hopen, ht, rfl⟩
    exact hi.round hH hopen ht

-- ── Runs in which no sleep fails ─────────────────────────────────────────────

/-- What the reads of the turns have got; and what is left while the loop goes
    on. -/
structure Rated (job : Job) (s : State H) : Prop where
  rate : ∀ k, (readIn job k s.log : Int) ≤ job.turnMax
  total : (readAll s.log : Int) ≤ job.turnMax * (job.tick s.clock + 1)
  spends : s.exit = none → Spends job s

theorem Spends.rated {s : State H} (h : Spends job s) : Rated job s := by
  have htotal := h.total
  have hroom := h.room.1
  exact ⟨h.rate, by omega, fun _ => h⟩

/-- The loop ends behind a read, and the share no longer matters. -/
theorem Spends.ends {s s' : State H} (h : Spends job s) (hlog : s'.log = s.log)
    (hclock : s'.clock = s.clock) (hexit : s'.exit ≠ none) : Rated job s' := by
  obtain ⟨hrate, htotal, -⟩ := h.rated
  rw [← hlog] at hrate htotal
  rw [← hclock] at htotal
  exact ⟨hrate, htotal, fun hopen => absurd hopen hexit⟩

/-- **THE END OF A ROUND** begins no turn before its time. -/
theorem limit_spends {file : Bytes} {s s' : State H} {r : Round} {n : Nat}
    (ht : Timely job file s r) (hsleeps : Sleeps job s r) (hclock : job.start ≤ s.clock)
    (hread : Spends job { s' with remain := s'.remain - n })
    (hs' : s'.clock = r.turn) (hmax : 0 ≤ job.turnMax) :
    Spends job (limit job s' r n) := by
  rw [limit, if_neg (Int.not_lt.mpr hmax)]
  dsimp only
  split
  next hcross =>
    have hlt : job.tick r.turn < job.tick r.now := lt_of_le_of_ne (tick_mono ht.now) hcross
    rw [← hs'] at hlt
    exact hread.renew hlt (hs' ▸ ht.now)
  next hsame =>
    have hwait := hread.wait (t := r.now) (hs' ▸ ht.now)
    split
    next hempty =>
      obtain ⟨ret, hret, hlt, hle⟩ := ht.next_turn hsleeps hclock
      rw [hret]
      exact hwait.renew hlt hle
    next hsome => exact hwait

/-- One round, with a limit. -/
theorem Rated.round {file : Bytes} {s : State H} (h : Rated job s) (hok : Ok job file s)
    {r : Round} (hopen : s.exit = none) (ht : Timely job file s r)
    (hsleeps : Sleeps job s r) (hmax : 0 ≤ job.turnMax) : Rated job (round job s r) := by
  have hspends := h.spends hopen
  have hwait := hspends.wait ht.turn
  have hturn : turnNow job { s with clock := r.turn } = turnNow job s := rfl
  obtain ⟨-, -, hshare⟩ := turnNow_spec hok.remain
  have hle := hshare hmax
  rw [FlinterDoHash.round]
  dsimp only
  rw [hturn]
  split
  next => exact hwait.ends rfl rfl nofun
  next hdead =>
  have hgotle : (r.read (turnNow job s)).length ≤ turnNow job s := by
    cases hgot : r.read (turnNow job s) with
    | bytes b => exact (ht.read b hgot).1
    | again => exact Nat.zero_le _
    | failed => exact Nat.zero_le _
  -- the share is spent in the turn in which the round began
  have hread := fun ctx hashed exit => hwait.read
    (e := ⟨r.turn, turnNow job s, (r.read (turnNow job s)).length⟩) rfl
    (by dsimp only; omega) ctx hashed exit
  cases hgot : r.read (turnNow job s) with
  | again =>
      rw [hgot] at hread
      have hread := hread s.ctx s.hashed s.exit
      rw [show (((⟨r.turn, turnNow job s, Got.again.length⟩ : Read).got : Nat) : Int) = 0
        from rfl, Int.sub_zero] at hread
      exact hread.rated
  | failed =>
      rw [hgot] at hread
      exact (hread s.ctx s.hashed (some .failed)).ends rfl rfl nofun
  | bytes bytes =>
      rw [hgot] at hread
      cases bytes with
      | nil => exact (hread s.ctx s.hashed (some .whole)).ends rfl rfl nofun
      | cons b bs =>
          dsimp only
          split
          · exact (hread s.ctx s.hashed (some .failed)).ends rfl rfl nofun
          next ctx hupdate =>
            exact (limit_spends ht hsleeps hspends.clock
              (hread ctx (s.hashed ++ b :: bs) s.exit) rfl hmax).rated

theorem rated_of_reachable {H : HashFunction} (hH : H.Lawful) {file : Bytes} {s : State H}
    (hmax : 0 ≤ job.turnMax)
    (hr : Reachable ((hashing job H file).restrict (Sleeps job)) s) : Rated job s := by
  have hboth : Rated job s ∧ Ok job file s := by
    refine hr.invariant (I := fun s => Rated job s ∧ Ok job file s) ?_ ?_
    · rintro s ⟨hinit, hremain, hhashed, hlog, hclock, hexit⟩
      refine ⟨Spends.rated ⟨?_, ?_, ?_, ?_, ?_, ?_⟩,
        ok_of_reachable hH (.start ⟨hinit, hremain, hhashed, hlog, hclock, hexit⟩)⟩
      · rw [hclock]
      · rw [hlog]
        exact fun _ he => absurd he List.not_mem_nil
      · rw [hremain]
        exact ⟨hmax, le_refl _⟩
      · rw [hlog, hremain, Int.sub_self]
        exact le_refl 0
      · rw [hlog]
        exact fun _ => hmax
      · rw [hlog, hremain, hclock, tick_start, Int.zero_add, mul_one]
        exact (Int.zero_add _).le
    · rintro s r s' _ ⟨hrated, hok⟩ ⟨hsleeps, hopen, ht, rfl⟩
      exact ⟨hrated.round hok hopen ht hsleeps hmax, hok.round hH hopen ht⟩
  exact hboth.1

/-- **NO TURN READS MORE THAN ITS SHARE**: in every run, for any clock and any
    pattern of reads, every read asks for one byte at least and the size of the
    buffer at most, and begins before the deadline; what is in `output` on success
    is the digest of the whole file; and as long as no `pselect` of a sleep fails,
    with a limit the reads of one turn of 20 ms have at most the fiftieth of it, so
    all of them at most that much for each turn begun. -/
theorem rate_limited (job : Job) (H : HashFunction) (hH : H.Lawful) (file : Bytes) :
    (∀ s, Reachable (hashing job H file) s →
      (∀ e ∈ s.log, 1 ≤ e.asked ∧ e.asked ≤ bufferSize ∧ e.got ≤ e.asked ∧
        (0 < job.milliseconds → e.turn < job.deadline)) ∧
      ∀ text, s.output = some text →
        ∃ digest, (H.init.bind (H.update · file)).bind H.final = some digest ∧
          text = hexText digest) ∧
    ∀ s, Reachable ((hashing job H file).restrict (Sleeps job)) s →
      1024 ≤ job.limitRate →
      (∀ k, (readIn job k s.log : Int) ≤ job.limitRate / 50) ∧
        (readAll s.log : Int) ≤ job.limitRate / 50 * (job.tick s.clock + 1) := by
  refine ⟨fun s hr => ⟨fun e he => ?_, fun text htext => ?_⟩, fun s hr hlimit => ?_⟩
  · have hasked := (ok_of_reachable hH hr).asked e he
    exact ⟨hasked.pos, hasked.room, hasked.got, hasked.inTime⟩
  · have hok := ok_of_reachable hH hr
    rw [State.output] at htext
    split at htext
    next hwhole =>
      obtain ⟨digest, hdigest, rfl⟩ := Option.map_eq_some_iff.mp htext
      have hctx := hok.ctx
      rw [hok.whole hwhole] at hctx
      exact ⟨digest, by rw [hctx, Option.bind_some, hdigest], rfl⟩
    · cases htext
  · have hmax : job.turnMax = job.limitRate / 50 := by
      rw [Job.turnMax, if_neg (Int.not_lt.mpr hlimit),
        Int.tdiv_eq_ediv_of_nonneg (by omega)]
      rfl
    have hnonneg : 0 ≤ job.turnMax := by
      rw [hmax]
      omega
    have hrated := rated_of_reachable hH hnonneg hr
    rw [← hmax]
    exact ⟨hrated.rate, hrated.total⟩

/-- A hash that keeps what it is given. -/
def plainHash : HashFunction := ⟨Bytes, some [], fun ctx b => some (ctx ++ b), some⟩

theorem plainHash_lawful : plainHash.Lawful where
  nil := fun ctx => congrArg some (List.append_nil ctx)
  append := fun ctx a b => congrArg some (List.append_assoc ctx a b).symm

/-- 20 bytes a turn. -/
def slowJob : Job := ⟨1024, 0, 0, -1⟩

/-- A round in which the read gives `bytes`. -/
def roundOf (bytes : Bytes) : Round :=
  ⟨0, fun _ => .bytes bytes, 0, 0, [⟨.timeout, 0, 20000000, 20000000⟩]⟩

/-- A file of 20 bytes is read in one turn, and its end in the next. -/
def slowFile : Bytes := List.replicate 20 10

def slowState : State plainHash :=
  round slowJob (round slowJob ⟨20, [], [], [], 0, none⟩ (roundOf slowFile))
    { roundOf [] with turn := 20000000, now := 20000000, asleep := 20000000,
                      naps := [⟨.timeout, 20000000, 40000000, 40000000⟩] }

theorem slowState_reachable :
    Reachable ((hashing slowJob plainHash slowFile).restrict (Sleeps slowJob)) slowState := by
  refine .next (.next (l := roundOf slowFile) (.start ⟨rfl, rfl, rfl, rfl, rfl, rfl⟩)
    ⟨?_, rfl, ?_, rfl⟩) ⟨?_, rfl, ?_, rfl⟩
  · rintro ret ⟨⟩
    decide
  · refine ⟨by decide, by decide, by decide, ?_,
      ⟨by decide, by decide, by decide, fun _ => by decide, trivial⟩, ⟨_, rfl⟩⟩
    rintro b ⟨⟩
    exact ⟨by decide, by decide, fun hnil => absurd hnil (by decide)⟩
  · rintro ret ⟨⟩
    decide
  · refine ⟨by decide, by decide, by decide, ?_,
      ⟨by decide, by decide, by decide, fun _ => by decide, trivial⟩, ⟨_, rfl⟩⟩
    rintro b ⟨⟩
    exact ⟨by decide, by decide, fun _ => Or.inr (by decide)⟩

theorem rate_limited_slow : (∀ k, (readIn slowJob k slowState.log : Int) ≤ 1024 / 50) ∧
    slowState.output = some (hexText slowFile) := by
  obtain ⟨hevery, hrate⟩ := rate_limited slowJob plainHash plainHash_lawful slowFile
  obtain ⟨-, htext⟩ := hevery slowState slowState_reachable.of_restrict
  obtain ⟨digest, hdigest, heq⟩ := htext _ rfl
  obtain rfl : slowFile = digest := Option.some.inj hdigest
  exact ⟨(hrate slowState slowState_reachable (by decide)).1, rfl⟩

end FlinterDoHash
