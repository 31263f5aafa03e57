import Mathlib.Algebra.Group.Nat.Defs
import Flinter.BufferProofs
import Flinter.CmdlineTitleProofs

/-! # A line of the log

    `VLog` puts a line together in a buffer on the stack, not from the front to
    the back: the colour is there before the time is printed in front of it, and
    each `sprintf` leaves a NUL that is written over.

    The number of the thread has six characters.  A longer one does not fit, and
    the line is not written. -/

namespace FlinterLogLine

open Buffers FlinterCmdline

def kMaximumLineLength : Nat := 2048

def kMaximumFileLength : Nat := 256

def PID_LENGTH : Nat := 6

/-- `g_filter`, `g_colorful` and `g_with_filename`. -/
structure Config where
  filter : Int
  colorful : Bool
  withFilename : Bool
deriving DecidableEq, Repr

/-- The local time and the thread. -/
structure Moment where
  mon : Nat
  mday : Nat
  hour : Nat
  min : Nat
  sec : Nat
  usec : Nat
  tid : Nat
  mon_lt : mon < 12
  mday_le : mday ≤ 31
  hour_lt : hour < 24
  min_lt : min < 60
  sec_le : sec ≤ 60
  usec_lt : usec < 1000000
  tid_lt : tid < 2 ^ 63

-- ── The code ─────────────────────────────────────────────────────────────────

/-- `%d` of what is not negative, filled to a width. -/
def padded (fill : Char) (width n : Nat) : Text :=
  List.replicate (width - (Nat.toDigits 10 n).length) fill ++ Nat.toDigits 10 n

/-- `%02d-%02d %02d:%02d:%02d.%06ld %6ld`. -/
def Moment.text (m : Moment) : Text :=
  padded '0' 2 (m.mon + 1) ++ ['-'] ++ padded '0' 2 m.mday ++ [' '] ++
    padded '0' 2 m.hour ++ [':'] ++ padded '0' 2 m.min ++ [':'] ++ padded '0' 2 m.sec ++ ['.'] ++
    padded '0' 6 m.usec ++ [' '] ++ padded ' ' PID_LENGTH m.tid

/-- `%d`. -/
def decimal (n : Int) : Text :=
  if n < 0 then '-' :: Nat.toDigits 10 n.natAbs else Nat.toDigits 10 n.natAbs

/-- What stands for a level. -/
def levelName (level : Int) : Text :=
  if level = 0 then "FATAL ".toList
  else if level = 1 then "ERROR ".toList
  else if level = 2 then "WARN  ".toList
  else if level = 3 then "INFO  ".toList
  else if level = 4 then "TRACE ".toList
  else if level = 5 then "DEBUG ".toList
  else if level = 6 then "MINOR ".toList
  else "OTHER ".toList

/-- The colour of a level, if it has one. -/
def levelColor (level : Int) : Option Text :=
  if level = 0 then some "\x1b[1;37;41m".toList
  else if level = 1 then some "\x1b[1;31m".toList
  else if level = 2 then some "\x1b[1;33m".toList
  else if level = 4 then some "\x1b[0;36m".toList
  else if level = 5 then some "\x1b[0;32m".toList
  else if level = 6 then some "\x1b[0;34m".toList
  else none

/-- The buffer, and how far `next` is behind its beginning. -/
abbrev Cursor := Buffer Char × Nat

/-- `sizeof(buffer)`. -/
def kBuffer : Nat := 48 + kMaximumLineLength + kMaximumFileLength + 20

/-- Something is copied to `next`, and `next` goes behind it but for a NUL. -/
def add (src tail : Text) (c : Cursor) : Option Cursor :=
  (c.1.put c.2 (src ++ tail)).map fun b => (b, c.2 + src.length)

/-- The `switch`. -/
def putLevel (color : Option Text) (level : Int) : Option Cursor := do
  let b ← (Buffer.new kBuffer).put 0 (levelName level)
  match color with
  | some c => add c [] (b, 29 + PID_LENGTH)
  | none => some (b, 29 + PID_LENGTH)

/-- What is behind `vsnprintf`: dots at the end of a message that is too long. -/
def putDots (p : Printed) (next : Nat) (b : Buffer Char) : Option Cursor :=
  if p.text.length > kMaximumLineLength then
    (b.put (next + kMaximumLineLength - 3) (List.replicate 3 '.')).map fun b =>
      (b, next + kMaximumLineLength)
  else some (b, next + p.text.length)

/-- The end of the name of a file. -/
def fileTail (file : Text) : Text :=
  if file.length > kMaximumFileLength then file.drop (file.length - kMaximumFileLength) else file

/-- `g_with_filename`. -/
def putLocation (file : Text) (line : BitVec 32) (c : Cursor) : Option Cursor := do
  let c ← add [' ', '['] [] c
  let c ← add (fileTail file) [] c
  let c ← add [':'] [] c
  let c ← add (decimal line.toInt) ['\x00'] c
  add [']'] [] c

/-- What comes of `VLog`: nothing is to be written, or nothing can, or this is
    what is handed to `Write`. -/
inductive Logged where
  | filtered
  | failed
  | line (text : Text)
deriving DecidableEq, Repr

/-- What is behind the message, and what is handed to `Write`. -/
def putEnding (cfg : Config) (color : Option Text) (file : Text) (line : BitVec 32)
    (c : Cursor) : Option Text :=
  (if cfg.withFilename = true then putLocation file line c else some c).bind fun c =>
  (if color.isSome = true then add "\x1b[0m".toList [] c else some c).bind fun c =>
  (add ['\n'] [] c).bind fun c => c.1.read c.2

/-- `VLog`, with what `vsnprintf` prints.  `none` is a byte outside of the buffer, or
    one that is handed to `Write` and was never written. -/
def vlog (cfg : Config) (level : Int) (file : Text) (line : BitVec 32) (m : Moment)
    (p : Printed) : Option Logged :=
  if level > cfg.filter then some .filtered
  else
    let color := if cfg.colorful then levelColor level else none
    (putLevel color level).bind fun c =>
    (c.1.put 6 (m.text ++ ['\x00'])).bind fun b =>
    if m.text.length ≠ 22 + PID_LENGTH then some .failed
    else
      (b.put (28 + PID_LENGTH) [' ']).bind fun b =>
      (add (p.text.take kMaximumLineLength) ['\x00'] (b, c.2)).bind fun message =>
      if p.fails = true then some .failed
      else
        (putDots p c.2 message.1).bind fun c =>
          (putEnding cfg color file line c).map .line

-- ── How long the parts are ───────────────────────────────────────────────────

variable {fill : Char} {width n : Nat} {level : Int} {color : Option Text} {m : Moment}
variable {b : Buffer Char} {p : Printed} {file text : Text} {line : BitVec 32} {cfg : Config}

theorem length_padded : (padded fill width n).length = max width (Nat.toDigits 10 n).length := by
  rw [padded, List.length_append, List.length_replicate]
  omega

theorem length_padded_of_lt (hwidth : 0 < width) (h : n < 10 ^ width) :
    (padded fill width n).length = width := by
  have hle := (Nat.length_toDigits_le_iff (by decide) hwidth).mpr h
  rw [length_padded]
  omega

theorem length_text : m.text.length = 22 + max PID_LENGTH (Nat.toDigits 10 m.tid).length := by
  have hmon : m.mon + 1 < 10 ^ 2 := by have h := m.mon_lt; omega
  have hmday : m.mday < 10 ^ 2 := by have h := m.mday_le; omega
  have hhour : m.hour < 10 ^ 2 := by have h := m.hour_lt; omega
  have hmin : m.min < 10 ^ 2 := by have h := m.min_lt; omega
  have hsec : m.sec < 10 ^ 2 := by have h := m.sec_le; omega
  simp only [Moment.text, List.length_append, List.length_singleton,
    length_padded_of_lt Nat.two_pos hmon, length_padded_of_lt Nat.two_pos hmday,
    length_padded_of_lt Nat.two_pos hhour, length_padded_of_lt Nat.two_pos hmin,
    length_padded_of_lt Nat.two_pos hsec, length_padded_of_lt (by decide : 0 < 6) m.usec_lt,
    length_padded]

/-- The time and the thread are as long as they should be if the thread is not too
    long. -/
theorem length_text_iff : m.text.length = 22 + PID_LENGTH ↔ m.tid < 10 ^ PID_LENGTH := by
  rw [length_text, ← Nat.length_toDigits_le_iff (by decide) (by decide : 0 < PID_LENGTH)]
  omega

theorem length_text_le : m.text.length ≤ 41 := by
  have hle : (Nat.toDigits 10 m.tid).length ≤ 19 :=
    (Nat.length_toDigits_le_iff (by decide) (by decide)).mpr (by have h := m.tid_lt; omega)
  rw [length_text, PID_LENGTH]
  omega

theorem length_decimal : (decimal line.toInt).length ≤ 11 := by
  have hle : (Nat.toDigits 10 line.toInt.natAbs).length ≤ 10 := by
    refine (Nat.length_toDigits_le_iff (by decide) (by decide)).mpr ?_
    have hlt := BitVec.toInt_lt (x := line)
    have hge := BitVec.le_toInt (x := line)
    omega
  rw [decimal]
  split
  · rw [List.length_cons]
    omega
  · omega

theorem length_levelName (level : Int) : (levelName level).length = 6 := by
  unfold levelName
  split_ifs
  all_goals rfl

theorem length_levelColor {c : Text} (h : levelColor level = some c) : c.length ≤ 10 := by
  unfold levelColor at h
  split_ifs at h
  all_goals cases h; decide

theorem length_fileTail : (fileTail file).length ≤ kMaximumFileLength := by
  rw [fileTail]
  split
  · rw [List.length_drop]
    omega
  · omega

-- ── What is in the buffer ────────────────────────────────────────────────────

/-- The text is in front, not longer than so much, and the cursor is behind it. -/
structure Filled (c : Cursor) (text : Text) (n : Nat) : Prop where
  holds : c.1.Holds 0 text
  next : c.2 = text.length
  le : text.length ≤ n
  size : c.1.size = kBuffer

variable {c : Cursor} {k : Nat}

theorem Filled.mono {n' : Nat} (h : Filled c text n) (hle : n ≤ n') : Filled c text n' :=
  ⟨h.holds, h.next, h.le.trans hle, h.size⟩

/-- One thing behind the other. -/
theorem Filled.add (src tail : Text) (h : Filled c text n) (hsrc : src.length ≤ k)
    (hfit : n + k + tail.length ≤ kBuffer) :
    ∃ c', add src tail c = some c' ∧ Filled c' (text ++ src) (n + k) := by
  have hle := h.le
  have hsize := h.size
  obtain ⟨b, hput, hholds, hb⟩ := h.holds.extend (b := c.1)
    (show text.length + (src ++ tail).length ≤ c.1.size by rw [List.length_append]; omega)
  refine ⟨(b, c.2 + src.length), ?_, hholds, ?_, ?_, hb.trans hsize⟩
  · rw [FlinterLogLine.add, h.next, hput]
    rfl
  · rw [h.next, List.length_append]
  · rw [List.length_append]
    omega

/-- What is in brackets behind the message. -/
def location (file : Text) (line : BitVec 32) : Text :=
  [' ', '['] ++ fileTail file ++ [':'] ++ decimal line.toInt ++ [']']

theorem putLocation_spec (h : Filled c text n) (hfit : n + 271 ≤ kBuffer) :
    ∃ c', putLocation file line c = some c' ∧ Filled c' (text ++ location file line) (n + 271) := by
  obtain ⟨c₁, h₁, hc₁⟩ := h.add [' ', '['] [] (Nat.le_refl 2) (by rw [List.length_nil]; omega)
  obtain ⟨c₂, h₂, hc₂⟩ := hc₁.add (fileTail file) [] length_fileTail
    (by rw [kMaximumFileLength, List.length_nil]; omega)
  obtain ⟨c₃, h₃, hc₃⟩ := hc₂.add [':'] [] (Nat.le_refl 1)
    (by rw [kMaximumFileLength, List.length_nil]; omega)
  obtain ⟨c₄, h₄, hc₄⟩ := hc₃.add (decimal line.toInt) ['\x00'] length_decimal
    (by rw [kMaximumFileLength, List.length_singleton]; omega)
  obtain ⟨c₅, h₅, hc₅⟩ := hc₄.add [']'] [] (Nat.le_refl 1)
    (by rw [kMaximumFileLength, List.length_nil]; omega)
  refine ⟨c₅, ?_, ?_⟩
  · simp only [putLocation, h₁, h₂, h₃, h₄, h₅, Option.bind_eq_bind, Option.bind_some]
  · simp only [List.append_assoc, location] at hc₅ ⊢
    exact hc₅

/-- A message, as far as there is room for it. -/
def cut (message : Text) : Text :=
  if message.length > kMaximumLineLength then
    message.take (kMaximumLineLength - 3) ++ List.replicate 3 '.'
  else message

theorem putDots_spec {next : Nat} (hnext : next = text.length) (hn : text.length ≤ n)
    (hholds : b.Holds 0 (text ++ p.text.take kMaximumLineLength)) (hsize : b.size = kBuffer) :
    ∃ c, putDots p next b = some c ∧ Filled c (text ++ cut p.text) (n + kMaximumLineLength) := by
  rw [putDots, cut]
  by_cases hlong : p.text.length > kMaximumLineLength
  · rw [if_pos hlong, if_pos hlong]
    have hfull : (p.text.take kMaximumLineLength).length = kMaximumLineLength :=
      List.length_take_of_le hlong.le
    have hlen : (text ++ p.text.take (kMaximumLineLength - 3)).length =
        next + kMaximumLineLength - 3 := by
      rw [List.length_append, List.length_take, hnext]
      rw [kMaximumLineLength] at hlong ⊢
      omega
    have hkept : b.Holds 0 (text ++ p.text.take (kMaximumLineLength - 3)) := by
      rw [← List.take_append_drop (kMaximumLineLength - 3) (p.text.take kMaximumLineLength),
        List.take_take, ← List.append_assoc] at hholds
      exact hholds.left
    have hfits : next + kMaximumLineLength - 3 + (List.replicate 3 '.').length ≤ b.size := by
      have hle := hholds.length_le
      rw [List.length_append, hfull] at hle
      rw [List.length_replicate, hnext]
      simp only [kMaximumLineLength] at hle ⊢
      omega
    obtain ⟨b', hput⟩ := Buffer.put_of_le hfits
    refine ⟨_, by rw [hput]; rfl, ?_, ?_, ?_, (Buffer.size_put hput).trans hsize⟩
    · rw [← List.append_assoc]
      refine (hkept.put hput (.inl (by omega))).append ?_
      rw [Nat.zero_add, hlen]
      exact .put_self hput
    · rw [← List.append_assoc, List.length_append, hlen, List.length_replicate,
        kMaximumLineLength]
      rfl
    · rw [← List.append_assoc, List.length_append, hlen, List.length_replicate,
        kMaximumLineLength]
      omega
  · rw [if_neg hlong, if_neg hlong]
    rw [List.take_of_length_le (Nat.not_lt.mp hlong)] at hholds
    refine ⟨_, rfl, hholds, by rw [hnext, List.length_append], ?_, hsize⟩
    rw [List.length_append]
    omega

-- ── The line ─────────────────────────────────────────────────────────────────

/-- The colour that is used. -/
def Config.usedColor (cfg : Config) (level : Int) : Option Text :=
  if cfg.colorful then levelColor level else none

theorem length_usedColor {s : Text} (h : cfg.usedColor level = some s) : s.length ≤ 10 := by
  rw [Config.usedColor] at h
  split at h
  · exact length_levelColor h
  · cases h

/-- What is in front of a message. -/
def header (level : Int) (m : Moment) (color : Option Text) : Text :=
  levelName level ++ m.text ++ [' '] ++ color.getD []

/-- A line as it should be. -/
def logLine (cfg : Config) (level : Int) (file : Text) (line : BitVec 32) (m : Moment)
    (message : Text) : Text :=
  header level m (cfg.usedColor level) ++ cut message ++
    (if cfg.withFilename then location file line else []) ++
    (if (cfg.usedColor level).isSome then "\x1b[0m".toList else []) ++ ['\n']

/-- The level, and the colour with a hole in between. -/
theorem putLevel_spec (level : Int) (hcolor : ∀ s, color = some s → s.length ≤ 10) :
    ∃ b, putLevel color level = some (b, 35 + (color.getD []).length) ∧ b.size = kBuffer ∧
      b.Holds 0 (levelName level) ∧ b.Holds 35 (color.getD []) := by
  have hname := length_levelName level
  obtain ⟨b, hput⟩ : ∃ b, (Buffer.new kBuffer).put 0 (levelName level) = some b :=
    Buffer.put_of_le (by rw [hname, Buffer.size_new]; decide)
  have hsize : b.size = kBuffer := (Buffer.size_put hput).trans Buffer.size_new
  cases color with
  | none =>
      refine ⟨b, ?_, hsize, .put_self hput, fun k hk => absurd hk (Nat.not_lt_zero k)⟩
      simp only [putLevel, hput, Option.bind_eq_bind, Option.bind_some]
      rfl
  | some s =>
      have hs := hcolor s rfl
      obtain ⟨b', hput'⟩ : ∃ b', b.put 35 s = some b' :=
        Buffer.put_of_le (by rw [hsize, kBuffer]; omega)
      refine ⟨b', ?_, (Buffer.size_put hput').trans hsize,
        (Buffer.Holds.put_self hput).put hput' (.inl (by rw [hname]; decide)), .put_self hput'⟩
      simp only [putLevel, hput, Option.bind_eq_bind, Option.bind_some, add, List.append_nil,
        show 29 + PID_LENGTH = 35 from rfl, hput', Option.map_some]
      rfl

/-- The hole is filled. -/
theorem filled_header {b₁ b₂ : Buffer Char} (hcolor : ∀ s, color = some s → s.length ≤ 10)
    (hsize : b.size = kBuffer) (hname : b.Holds 0 (levelName level))
    (hlevel : b.Holds 35 (color.getD [])) (hlen : m.text.length = 28)
    (h₁ : b.put 6 (m.text ++ ['\x00']) = some b₁) (h₂ : b₁.put 34 [' '] = some b₂) :
    Filled (b₂, 35 + (color.getD []).length) (header level m color) 45 := by
  have hlen₁ : (m.text ++ ['\x00']).length = 29 := by
    rw [List.length_append, hlen]
    rfl
  have hname' := length_levelName level
  have hlength : (color.getD []).length ≤ 10 := by
    cases color with
    | none => exact Nat.zero_le _
    | some s => exact hcolor s rfl
  have htext : b₂.Holds 6 m.text :=
    (Buffer.Holds.put_self h₁).left.put h₂ (.inl (by rw [hlen]))
  have hblank : b₂.Holds 34 [' '] := .put_self h₂
  have hname₂ : b₂.Holds 0 (levelName level) :=
    (hname.put h₁ (.inl (by rw [hname']))).put h₂ (.inl (by rw [hname']; decide))
  have hlevel₂ : b₂.Holds 35 (color.getD []) :=
    (hlevel.put h₁ (.inr (by rw [hlen₁]))).put h₂ (.inr (Nat.le_refl 35))
  have hall : (header level m color).length = 35 + (color.getD []).length := by
    simp only [header, List.length_append, hname', hlen, List.length_singleton]
  refine ⟨?_, hall.symm, by rw [hall]; omega,
    (Buffer.size_put h₂).trans ((Buffer.size_put h₁).trans hsize)⟩
  refine Buffer.Holds.append (.append (.append hname₂ ?_) ?_) ?_
  · rw [hname']
    exact htext
  · rw [List.length_append, hname', hlen]
    exact hblank
  · rw [List.length_append, List.length_append, hname', hlen]
    exact hlevel₂

theorem putEnding_spec (h : Filled c text 2093) :
    putEnding cfg color file line c = some (text ++
      (if cfg.withFilename = true then location file line else []) ++
      (if color.isSome = true then "\x1b[0m".toList else []) ++ ['\n']) := by
  obtain ⟨c₁, h₁, hc₁⟩ : ∃ c₁,
      (if cfg.withFilename = true then putLocation file line c else some c) = some c₁ ∧
      Filled c₁ (text ++ if cfg.withFilename = true then location file line else []) 2364 := by
    split
    · exact putLocation_spec h (by decide)
    · exact ⟨c, rfl, by rw [List.append_nil]; exact h.mono (by decide)⟩
  obtain ⟨c₂, h₂, hc₂⟩ : ∃ c₂,
      (if color.isSome = true then add "\x1b[0m".toList [] c₁ else some c₁) = some c₂ ∧
      Filled c₂ (text ++ (if cfg.withFilename = true then location file line else []) ++
        if color.isSome = true then "\x1b[0m".toList else []) 2368 := by
    split
    · exact hc₁.add "\x1b[0m".toList [] (Nat.le_refl 4) (by decide)
    · exact ⟨c₁, rfl, by rw [List.append_nil]; exact hc₁.mono (by decide)⟩
  obtain ⟨c₃, h₃, hc₃⟩ := hc₂.add ['\n'] [] (Nat.le_refl 1) (by decide)
  rw [putEnding, h₁, Option.bind_some, h₂, Option.bind_some, h₃, Option.bind_some, hc₃.next]
  exact hc₃.holds.read

/-- **THE LINE**: whatever the level, the message and the place, no byte outside of
    the buffer is written and none that was not written is read; and the line is
    complete, unless the thread has too long a number. -/
theorem vlog_eq : vlog cfg level file line m p = some
    (if level > cfg.filter then .filtered
      else if 10 ^ PID_LENGTH ≤ m.tid ∨ p.fails = true then .failed
      else .line (logLine cfg level file line m p.text)) := by
  rw [vlog]
  by_cases hfilter : level > cfg.filter
  · rw [if_pos hfilter, if_pos hfilter]
  rw [if_neg hfilter, if_neg hfilter, ← Config.usedColor]
  have hcolor : ∀ s, cfg.usedColor level = some s → s.length ≤ 10 := fun s => length_usedColor
  obtain ⟨b, hlevel, hsize, hname, hholds⟩ := putLevel_spec level hcolor
  obtain ⟨b₁, h₁⟩ : ∃ b₁, b.put 6 (m.text ++ ['\x00']) = some b₁ := by
    have hle := length_text_le (m := m)
    exact Buffer.put_of_le (by
      rw [hsize, List.length_append, List.length_singleton, kBuffer]
      omega)
  simp only [hlevel, Option.bind_some, h₁]
  by_cases hlen : m.text.length = 22 + PID_LENGTH
  case neg =>
    have htid : 10 ^ PID_LENGTH ≤ m.tid := Nat.not_lt.mp fun h => hlen (length_text_iff.mpr h)
    rw [if_pos hlen, if_pos (.inl htid)]
  case pos =>
  have htid : ¬10 ^ PID_LENGTH ≤ m.tid := Nat.not_le.mpr (length_text_iff.mp hlen)
  obtain ⟨b₂, h₂⟩ : ∃ b₂, b₁.put (28 + PID_LENGTH) [' '] = some b₂ :=
    Buffer.put_of_le (by rw [Buffer.size_put h₁, hsize]; decide)
  have hheader := filled_header hcolor hsize hname hholds hlen h₁ h₂
  obtain ⟨c₃, h₃, hc₃⟩ := hheader.add (p.text.take kMaximumLineLength) ['\x00']
    (List.length_take_le _ _) (by decide)
  rw [if_neg (not_not.mpr hlen), h₂, Option.bind_some, h₃, Option.bind_some]
  cases hfails : p.fails with
  | true => rw [if_pos rfl, if_pos (.inr rfl)]
  | false =>
      obtain ⟨c₄, h₄, hc₄⟩ := putDots_spec hheader.next hheader.le hc₃.holds hc₃.size
      rw [if_neg (by decide), if_neg (by rw [not_or]; exact ⟨htid, by decide⟩), h₄,
        Option.bind_some, putEnding_spec hc₄]
      rfl

end FlinterLogLine
