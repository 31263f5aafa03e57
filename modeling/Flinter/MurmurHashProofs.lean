import Flinter.MixingProofs

/-! # `MurmurHash3_x86_32`, and `hash_murmurhash3` over it

    The key is read four bytes at a time, each block is mixed into the state, up
    to three bytes are left, and at the end the state is mixed once more.  No
    step of it loses anything, so whatever else is in the key, each block on its
    own is told apart from every other block at its place. -/

namespace FlinterHash

open Mixing

abbrev Byte := BitVec 8

abbrev Word := BitVec 32

-- ── src/flinter/MurmurHash3.c ────────────────────────────────────────────────

/-- `p[i]` of a machine that has the low byte first. -/
def getblock32 (b₀ b₁ b₂ b₃ : Byte) : Word := b₃ ++ b₂ ++ b₁ ++ b₀

def rotl32 (x : Word) (r : Nat) : Word := (x <<< r) ||| (x >>> (32 - r))

def fmix32 (h : Word) : Word :=
  let h := h ^^^ (h >>> 16)
  let h := h * 0x85ebca6b
  let h := h ^^^ (h >>> 13)
  let h := h * 0xc2b2ae35
  h ^^^ (h >>> 16)

def c1 : Word := 0xcc9e2d51

def c2 : Word := 0x1b873593

/-- What is done to `k1`, in the body and in the tail. -/
def scramble (k1 : Word) : Word :=
  let k1 := k1 * c1
  let k1 := rotl32 k1 15
  k1 * c2

/-- One round of the body. -/
def mixBlock (h1 k1 : Word) : Word :=
  let h1 := h1 ^^^ scramble k1
  let h1 := rotl32 h1 13
  h1 * 5 + 0xe6546b64

/-- The `switch` over the bytes that are left, which falls through. -/
def gather : List Byte → Word
  | [b₀] => b₀.setWidth 32
  | [b₀, b₁] => b₁.setWidth 32 <<< 8 ^^^ b₀.setWidth 32
  | [b₀, b₁, b₂] =>
      b₂.setWidth 32 <<< 16 ^^^ b₁.setWidth 32 <<< 8 ^^^ b₀.setWidth 32
  | _ => 0

/-- `blocks`: as many as there are, four bytes each. -/
def blocks : List Byte → List Word
  | b₀ :: b₁ :: b₂ :: b₃ :: rest => getblock32 b₀ b₁ b₂ b₃ :: blocks rest
  | _ => []

/-- `tail`: what is behind the blocks. -/
def tail : List Byte → List Byte
  | _ :: _ :: _ :: _ :: rest => tail rest
  | bytes => bytes

/-- The tail is mixed in, if there is one. -/
def mixTail (h1 : Word) : List Byte → Word
  | [] => h1
  | bytes => h1 ^^^ scramble (gather bytes)

/-- The length is an `int`. -/
def MurmurHash3_x86_32 (key : List Byte) (seed : Word) : Word :=
  let h1 := (blocks key).foldl mixBlock seed
  let h1 := mixTail h1 (tail key)
  let h1 := h1 ^^^ BitVec.ofNat 32 key.length
  fmix32 h1

-- ── src/flinter/hash.c ───────────────────────────────────────────────────────

/-- A buffer whose length fits into an `int`. -/
def Key := { bytes : List Byte // bytes.length < 2 ^ 31 }

def hash_murmurhash3 (key : Key) : Word :=
  let seed := BitVec.ofNat 32 (key.1.length * 0xdeadbeef)
  MurmurHash3_x86_32 key.1 seed

/-- What the test of the repository expects of `hello`. -/
example : hash_murmurhash3 ⟨[0x68, 0x65, 0x6c, 0x6c, 0x6f], by decide⟩ = 0x3fa68fd9 := by
  decide

-- ── Nothing is lost ──────────────────────────────────────────────────────────

variable {h k x y : Word}

theorem rotl32_injective {r : Nat} (hr : r < 32) :
    Function.Injective fun x => rotl32 x r :=
  rotl_injective hr

/-- The finalizer is made of shifts and odd factors. -/
theorem fmix32_injective : Function.Injective fmix32 := by
  have h₁ : (0x85ebca6b : Word) * 0xa5cb9243 = 1 := by decide
  have h₂ : (0xc2b2ae35 : Word) * 0x7ed1b41d = 1 := by decide
  have h16 := xorShift_injective (w := 32) (r := 16) (by decide)
  have h13 := xorShift_injective (w := 32) (r := 13) (by decide)
  exact h16.comp ((mul_injective h₂).comp (h13.comp ((mul_injective h₁).comp h16)))

theorem scramble_injective : Function.Injective scramble := by
  have h₁ : c1 * 0xdee13bb1 = 1 := by decide
  have h₂ : c2 * 0x56ed309b = 1 := by decide
  exact (mul_injective h₂).comp ((rotl32_injective (by decide)).comp (mul_injective h₁))

/-- One round, for a fixed state. -/
theorem mixBlock_injective : Function.Injective (mixBlock h) := by
  have h₅ : (5 : Word) * 0xcccccccd = 1 := by decide
  have hxor : Function.Injective fun x : Word => h ^^^ x :=
    fun _ _ heq => (BitVec.xor_right_inj h).mp heq
  exact (add_injective 0xe6546b64).comp ((mul_injective h₅).comp
    ((rotl32_injective (by decide)).comp (hxor.comp scramble_injective)))

/-- One round, for a fixed block. -/
theorem mixBlock_injective_state : Function.Injective fun h => mixBlock h k := by
  have h₅ : (5 : Word) * 0xcccccccd = 1 := by decide
  exact (add_injective 0xe6546b64).comp ((mul_injective h₅).comp
    ((rotl32_injective (by decide)).comp (xor_injective (scramble k))))

theorem append_inj {n m : Nat} {a a' : BitVec n} {b b' : BitVec m}
    (h : a ++ b = a' ++ b') : a = a' ∧ b = b' := by
  constructor
  · refine BitVec.eq_of_getLsbD_eq fun i _ => ?_
    have hbit := congrArg (·.getLsbD (i + m)) h
    simp only [BitVec.getLsbD_append] at hbit
    rwa [if_neg (by omega), if_neg (by omega), Nat.add_sub_cancel] at hbit
  · refine BitVec.eq_of_getLsbD_eq fun i hi => ?_
    have hbit := congrArg (·.getLsbD i) h
    simp only [BitVec.getLsbD_append] at hbit
    rwa [if_pos hi, if_pos hi] at hbit

theorem getblock32_inj {b₀ b₁ b₂ b₃ d₀ d₁ d₂ d₃ : Byte}
    (h : getblock32 b₀ b₁ b₂ b₃ = getblock32 d₀ d₁ d₂ d₃) :
    [b₀, b₁, b₂, b₃] = [d₀, d₁, d₂, d₃] := by
  obtain ⟨h₁, h₀⟩ := append_inj h
  obtain ⟨h₂, h₁⟩ := append_inj h₁
  obtain ⟨h₃, h₂⟩ := append_inj h₂
  rw [h₀, h₁, h₂, h₃]

/-- The bytes of a block, lowest first. -/
theorem getblock32_surjective (k : Word) : ∃ b₀ b₁ b₂ b₃, getblock32 b₀ b₁ b₂ b₃ = k := by
  refine ⟨k.extractLsb' 0 8, k.extractLsb' 8 8, k.extractLsb' 16 8, k.extractLsb' 24 8, ?_⟩
  refine BitVec.eq_of_getLsbD_eq fun i hi => ?_
  simp only [getblock32, BitVec.getLsbD_append, BitVec.getLsbD_extractLsb']
  grind

/-- The bytes that are left are a block with zeros behind them. -/
theorem gather_eq (b₀ b₁ b₂ : Byte) :
    gather [b₀] = getblock32 b₀ 0 0 0 ∧ gather [b₀, b₁] = getblock32 b₀ b₁ 0 0 ∧
      gather [b₀, b₁, b₂] = getblock32 b₀ b₁ b₂ 0 := by
  refine ⟨?_, ?_, ?_⟩
  all_goals
    refine BitVec.eq_of_getLsbD_eq fun i hi => ?_
    simp only [gather, getblock32, BitVec.getLsbD_append, BitVec.getLsbD_xor,
      BitVec.getLsbD_shiftLeft, BitVec.getLsbD_setWidth]
    grind

theorem gather_inj {a b : List Byte} (hlen : a.length = b.length) (hshort : a.length < 4)
    (h : gather a = gather b) : a = b := by
  match a, b, hlen with
  | [], [], _ => rfl
  | [x₀], [y₀], _ =>
      rw [(gather_eq x₀ 0 0).1, (gather_eq y₀ 0 0).1] at h
      exact congrArg (List.take 1) (getblock32_inj h)
  | [x₀, x₁], [y₀, y₁], _ =>
      rw [(gather_eq x₀ x₁ 0).2.1, (gather_eq y₀ y₁ 0).2.1] at h
      exact congrArg (List.take 2) (getblock32_inj h)
  | [x₀, x₁, x₂], [y₀, y₁, y₂], _ =>
      rw [(gather_eq x₀ x₁ x₂).2.2, (gather_eq y₀ y₁ y₂).2.2] at h
      exact congrArg (List.take 3) (getblock32_inj h)
  | _ :: _ :: _ :: _ :: _, _, _ =>
      simp only [List.length_cons] at hshort
      omega

theorem mixTail_inj {a b : List Byte} (hlen : a.length = b.length) (hshort : a.length < 4)
    (heq : mixTail h a = mixTail h b) : a = b := by
  cases a with
  | nil => exact (List.eq_nil_of_length_eq_zero hlen.symm).symm
  | cons x a =>
      cases b with
      | nil => exact absurd hlen (by simp)
      | cons y b =>
          refine gather_inj hlen hshort (scramble_injective ?_)
          exact (BitVec.xor_right_inj h).mp heq

/-- Whole blocks come before what follows them. -/
theorem blocks_append {pre : List Byte} (rest : List Byte) (hpre : 4 ∣ pre.length) :
    blocks (pre ++ rest) = blocks pre ++ blocks rest ∧ tail (pre ++ rest) = tail rest := by
  fun_induction blocks pre with
  | case1 b₀ b₁ b₂ b₃ pre ih =>
      simp only [List.length_cons] at hpre
      obtain ⟨hblocks, htail⟩ := ih (by omega)
      simp only [List.cons_append, blocks, tail, hblocks, htail]
      exact ⟨trivial, trivial⟩
  | case2 pre hshort =>
      match pre, hshort with
      | [], _ => exact ⟨rfl, rfl⟩
      | [_], _ => simp at hpre
      | [_, _], _ => simp at hpre
      | [_, _, _], _ => simp at hpre
      | _ :: _ :: _ :: _ :: _, hshort => exact (hshort _ _ _ _ _ rfl).elim

theorem foldl_mixBlock_injective (ks : List Word) :
    Function.Injective fun h => ks.foldl mixBlock h := by
  induction ks with
  | nil => exact Function.injective_id
  | cons k ks ih => exact ih.comp mixBlock_injective_state

theorem mixTail_injective (bytes : List Byte) : Function.Injective fun h => mixTail h bytes := by
  cases bytes with
  | nil => exact Function.injective_id
  | cons b bytes => exact xor_injective (scramble (gather (b :: bytes)))

/-- What is done with the state behind a block, in a key of `n` bytes. -/
def finish (n : Nat) (post : List Byte) (h : Word) : Word :=
  fmix32 (mixTail ((blocks post).foldl mixBlock h) (tail post) ^^^ BitVec.ofNat 32 n)

theorem finish_injective (n : Nat) (post : List Byte) : Function.Injective (finish n post) :=
  fmix32_injective.comp ((xor_injective _).comp
    ((mixTail_injective _).comp (foldl_mixBlock_injective _)))

/-- **THE SEED** is not lost. -/
theorem murmurHash3_bijective (key : List Byte) :
    Function.Bijective (MurmurHash3_x86_32 key) :=
  bijective_of_injective (finish_injective key.length key)

variable {pre post : List Byte} {n : Nat}

/-- A key with a block in the middle. -/
theorem murmurHash3_block (seed : Word) (b₀ b₁ b₂ b₃ : Byte) (hpre : 4 ∣ pre.length) :
    MurmurHash3_x86_32 (pre ++ [b₀, b₁, b₂, b₃] ++ post) seed =
      finish (pre.length + 4 + post.length) post
        (mixBlock ((blocks pre).foldl mixBlock seed) (getblock32 b₀ b₁ b₂ b₃)) := by
  obtain ⟨hblocks, htail⟩ := blocks_append (b₀ :: b₁ :: b₂ :: b₃ :: post) hpre
  have hlen : (pre ++ b₀ :: b₁ :: b₂ :: b₃ :: post).length =
      pre.length + 4 + post.length := by
    simp only [List.length_append, List.length_cons]
    omega
  rw [List.append_assoc, List.cons_append, List.cons_append, List.cons_append,
    List.cons_append, List.nil_append, MurmurHash3_x86_32, hblocks, htail, hlen,
    List.foldl_append, blocks, tail, List.foldl_cons, finish]

/-- A key with fewer than four bytes at its end. -/
theorem murmurHash3_tail (seed : Word) {a : List Byte} (hpre : 4 ∣ pre.length)
    (hshort : a.length < 4) :
    MurmurHash3_x86_32 (pre ++ a) seed =
      fmix32 (mixTail ((blocks pre).foldl mixBlock seed) a ^^^
        BitVec.ofNat 32 (pre.length + a.length)) := by
  obtain ⟨hblocks, htail⟩ := blocks_append a hpre
  have hnone : blocks a = [] ∧ tail a = a := by
    match a, hshort with
    | [], _ => exact ⟨rfl, rfl⟩
    | [_], _ => exact ⟨rfl, rfl⟩
    | [_, _], _ => exact ⟨rfl, rfl⟩
    | [_, _, _], _ => exact ⟨rfl, rfl⟩
    | _ :: _ :: _ :: _ :: _, hshort =>
        simp only [List.length_cons] at hshort
        omega
  rw [MurmurHash3_x86_32, hblocks, htail, hnone.1, hnone.2, List.append_nil,
    List.length_append]

/-- The key is `n` bytes between `pre` and `post`. -/
def Fills (pre : List Byte) (n : Nat) (post : List Byte) (key : Key) : Prop :=
  ∃ a : List Byte, a.length = n ∧ key.1 = pre ++ a ++ post

theorem exists_block {a : List Byte} (h : a.length = 4) :
    ∃ b₀ b₁ b₂ b₃, a = [b₀, b₁, b₂, b₃] := by
  match a, h with
  | [b₀, b₁, b₂, b₃], _ => exact ⟨b₀, b₁, b₂, b₃, rfl⟩

/-- Two blocks at one place are told apart. -/
theorem hash_block_inj {key key' : Key} (hpre : 4 ∣ pre.length) (h : Fills pre 4 post key)
    (h' : Fills pre 4 post key') (heq : hash_murmurhash3 key = hash_murmurhash3 key') :
    key = key' := by
  obtain ⟨a, ha, hkey⟩ := h
  obtain ⟨a', ha', hkey'⟩ := h'
  obtain ⟨b₀, b₁, b₂, b₃, rfl⟩ := exists_block ha
  obtain ⟨d₀, d₁, d₂, d₃, rfl⟩ := exists_block ha'
  have hlen : key.1.length = key'.1.length := by
    rw [hkey, hkey']
    simp only [List.length_append, List.length_cons]
  rw [hash_murmurhash3, hash_murmurhash3, hlen, hkey, hkey', murmurHash3_block _ _ _ _ _ hpre,
    murmurHash3_block _ _ _ _ _ hpre] at heq
  have hblock := getblock32_inj (mixBlock_injective (finish_injective _ _ heq))
  exact Subtype.ext (by rw [hkey, hkey', hblock])

/-- And so is what is left at the end. -/
theorem hash_tail_inj {key key' : Key} (hpre : 4 ∣ pre.length) (hshort : n < 4)
    (h : Fills pre n [] key) (h' : Fills pre n [] key')
    (heq : hash_murmurhash3 key = hash_murmurhash3 key') : key = key' := by
  obtain ⟨a, ha, hkey⟩ := h
  obtain ⟨a', ha', hkey'⟩ := h'
  rw [List.append_nil] at hkey hkey'
  have hlen : key.1.length = key'.1.length := by
    rw [hkey, hkey', List.length_append, List.length_append, ha, ha']
  rw [hash_murmurhash3, hash_murmurhash3, hlen, hkey, hkey',
    murmurHash3_tail _ hpre (ha.trans_lt hshort), murmurHash3_tail _ hpre (ha'.trans_lt hshort),
    ha, ha'] at heq
  have hmixed := xor_injective _ (fmix32_injective heq)
  refine Subtype.ext ?_
  rw [hkey, hkey', mixTail_inj (ha.trans ha'.symm) (ha.trans_lt hshort) hmixed]

/-- **NO COLLISION IN ONE BLOCK**: whatever comes before it and behind it, each
    block of four bytes gives its own hash and every hash comes from one; what is
    left at the end gives different hashes when it differs; and for each key the
    seeds are told apart. -/
theorem hash_murmurhash3_separates (pre post : List Byte) (hpre : 4 ∣ pre.length) :
    (pre.length + 4 + post.length < 2 ^ 31 →
      ∀ v, ∃! key, Fills pre 4 post key ∧ hash_murmurhash3 key = v) ∧
    (∀ n < 4, ∀ key key', Fills pre n [] key → Fills pre n [] key' →
      hash_murmurhash3 key = hash_murmurhash3 key' → key = key') ∧
    ∀ key : Key, Function.Bijective (MurmurHash3_x86_32 key.1) := by
  refine ⟨?_, fun n hn key key' h h' => hash_tail_inj hpre hn h h',
    fun key => murmurHash3_bijective key.1⟩
  intro hlen v
  have hsurj := (bijective_of_injective ((finish_injective (pre.length + 4 + post.length) post).comp
    (mixBlock_injective (h := (blocks pre).foldl mixBlock
      (BitVec.ofNat 32 ((pre.length + 4 + post.length) * 0xdeadbeef)))))).2
  obtain ⟨k, hk⟩ := hsurj v
  obtain ⟨b₀, b₁, b₂, b₃, rfl⟩ := getblock32_surjective k
  have hsize : (pre ++ [b₀, b₁, b₂, b₃] ++ post).length = pre.length + 4 + post.length := by
    simp only [List.length_append, List.length_cons, List.length_nil]
  refine ⟨⟨pre ++ [b₀, b₁, b₂, b₃] ++ post, hsize.trans_lt hlen⟩,
    ⟨⟨[b₀, b₁, b₂, b₃], rfl, rfl⟩, ?_⟩, ?_⟩
  · show MurmurHash3_x86_32 _ _ = v
    rw [murmurHash3_block _ _ _ _ _ hpre, hsize]
    exact hk
  · rintro key ⟨hfills, hv⟩
    refine hash_block_inj hpre hfills ⟨[b₀, b₁, b₂, b₃], rfl, rfl⟩ (hv.trans ?_)
    show v = MurmurHash3_x86_32 _ _
    rw [murmurHash3_block _ _ _ _ _ hpre, hsize]
    exact hk.symm

/-- The hash 0 comes from one key of four bytes and a final zero. -/
theorem hash_murmurhash3_separates_zero :
    ∃! key, Fills [] 4 [0] key ∧ hash_murmurhash3 key = 0 :=
  (hash_murmurhash3_separates [] [0] (by decide)).1 (by decide) 0

end FlinterHash
