import Flinter.FramingProofs

/-! # Cutting a stream of whole messages

    A sender that writes one whole message after another and a receiver that
    cuts what has arrived agree: at any time the receiver has seen a front of
    the messages, never fails, and has seen all of them once every byte is
    there.  `free` is the receiver that never stops; what another receiver with
    the same length rule sees is a front of what `free` sees. -/

namespace Framing

universe u v

variable {α : Type u} {β : Type v}

/-- A message whose length the rule tells. -/
def Whole (length : List α → Int) (m : List α) : Prop :=
  m ≠ [] ∧ length m = m.length

/-- The receiver that takes every message. -/
def free (length : List α → Int) : Receiver α β := ⟨length, fun _ _ => none⟩

/-- What is known of the length of the first message. -/
def Expects (known : Nat) : List (List α) → Prop
  | [] => known = 0
  | m :: _ => known = 0 ∨ known = m.length

theorem expects_zero (ms : List (List α)) : Expects 0 ms := by
  cases ms with
  | nil => exact rfl
  | cons m ms => exact Or.inl rfl

-- ── Any receiver ─────────────────────────────────────────────────────────────

/-- The messages seen before stay in front. -/
theorem cut_grows {r : Receiver α β} (known : Nat) (seen : List (List α)) (buf : List α) :
    seen <+: (cut r known seen buf).seen := by
  induction known, seen, buf using cut_induction r with
  | wait known seen buf known' hl =>
      rewrite [cut_wait hl]
      exact List.prefix_rfl
  | fail known seen buf hl =>
      rewrite [cut_fail hl]
      exact List.prefix_rfl
  | stop known seen buf m rest why hl hs =>
      rw [cut_stop hl hs]
      exact List.prefix_append _ _
  | go known seen buf m rest hl hs ih =>
      rw [cut_go hl hs]
      exact (List.prefix_append _ _).trans ih

/-- More bytes take no message back. -/
theorem cut_seen_append {r : Receiver α β} (hpc : PrefixConsistent r.length)
    (known : Nat) (seen : List (List α)) (a b : List α) :
    (cut r known seen a).seen <+: (cut r known seen (a ++ b)).seen := by
  by_cases hm : (cut r known seen a).outcome = .more
  · rw [cut_append hpc known seen a b hm]
    exact cut_grows _ _ _
  · rewrite [(cut_append_end hpc known seen a b hm).2]
    exact List.prefix_rfl

/-- A receiver that stops sees a front of what it would see. -/
theorem cut_free (r : Receiver α β) (known : Nat) (seen : List (List α)) (buf : List α) :
    (cut r known seen buf).seen <+: (cut (free (β := β) r.length) known seen buf).seen ∧
    ((cut r known seen buf).outcome = .more →
      cut (free r.length) known seen buf = cut r known seen buf) := by
  induction known, seen, buf using cut_induction r with
  | wait known seen buf known' hl =>
      have hfree : look (free (β := β) r.length).length known buf = .wait known' := hl
      rw [cut_wait hl, cut_wait hfree]
      exact ⟨List.prefix_rfl, fun _ => rfl⟩
  | fail known seen buf hl =>
      have hfree : look (free (β := β) r.length).length known buf = .fail := hl
      rw [cut_fail hl, cut_fail hfree]
      exact ⟨List.prefix_rfl, fun hm => (by cases hm)⟩
  | stop known seen buf m rest why hl hs =>
      have hfree : look (free (β := β) r.length).length known buf = .message m rest := hl
      rw [cut_stop hl hs, cut_go hfree rfl]
      exact ⟨cut_grows _ _ _, fun hm => (by cases hm)⟩
  | go known seen buf m rest hl hs ih =>
      have hfree : look (free (β := β) r.length).length known buf = .message m rest := hl
      rw [cut_go hl hs, cut_go hfree rfl]
      exact ih

-- ── Whole messages ───────────────────────────────────────────────────────────

section Stream

variable {length : List α → Int} (hpc : PrefixConsistent length)

include hpc

/-- The front of a stream of whole messages is the first of them or too short
    for it. -/
theorem look_whole {known : Nat} {m : List α} (hm : Whole length m)
    (hk : known = 0 ∨ known = m.length) {buf tail : List α} (hbuf : buf <+: m ++ tail) :
    (∃ known', look length known buf = .wait known' ∧
      (known' = 0 ∨ known' = m.length) ∧ buf.length < m.length) ∨
    ∃ rest, look length known buf = .message m rest ∧ buf = m ++ rest ∧ rest <+: tail := by
  obtain ⟨hne, hlen⟩ := hm
  have hpos : 0 < m.length := List.length_pos_iff.mpr hne
  rcases Nat.lt_or_ge buf.length m.length with hshort | hfull
  · refine Or.inl ?_
    have hfront : buf <+: m :=
      List.prefix_of_prefix_length_le hbuf (List.prefix_append _ _) (Nat.le_of_lt hshort)
    have hasked : buf ≠ [] → asked length known buf = 0 ∨
        asked length known buf = m.length := by
      intro hsome
      rcases hk with rfl | rfl
      · rw [asked, if_pos rfl]
        by_cases hz : length buf = 0
        · exact Or.inl hz
        · obtain ⟨more, rfl⟩ := hfront
          rw [← hpc buf more hsome hz, hlen]
          exact Or.inr rfl
      · rw [asked_known (Nat.ne_of_gt hpos)]
        exact Or.inr rfl
    have hlooked := looked length known buf
    generalize hl : look length known buf = l at hlooked
    cases hlooked with
    | empty hnil => exact ⟨known, rfl, hk, hshort⟩
    | negative hnil hneg =>
        rcases hasked (fun h0 => hnil (by rw [h0]; rfl)) with h0 | h0
        · omega
        · omega
    | undecided hnil hzero => exact ⟨0, rfl, Or.inl rfl, hshort⟩
    | short hret hnil hlt =>
        rcases hasked (fun h0 => hnil (by rw [h0]; rfl)) with h0 | h0
        · omega
        · exact ⟨_, rfl, Or.inr (by omega), hshort⟩
    | whole hret hnil hle =>
        rcases hasked (fun h0 => hnil (by rw [h0]; rfl)) with h0 | h0
        · omega
        · omega
  · refine Or.inr ?_
    obtain ⟨rest, rfl⟩ : m <+: buf :=
      List.prefix_of_prefix_length_le (List.prefix_append _ _) hbuf hfull
    have hrest : rest <+: tail := (List.prefix_append_right_inj m).mp hbuf
    refine ⟨rest, ?_, rfl, hrest⟩
    rcases hk with rfl | rfl
    · have hone : length (m ++ rest) = m.length := by
        rw [hpc m rest hne (by omega), hlen]
      rw [look, asked, if_pos rfl, hone, List.length_append, if_neg (by omega),
        if_neg (by omega), if_neg (by omega), Int.toNat_natCast, if_neg (by omega),
        List.take_left, List.drop_left]
    · exact look_known_message length (Nat.ne_of_gt hpos) rfl rest

/-- **A FRONT OF A STREAM OF WHOLE MESSAGES** is cut into a front of the
    messages, and the receiver waits for more. -/
theorem cut_whole {known : Nat} (seen : List (List α)) {ms : List (List α)} {buf : List α}
    (hms : ∀ m ∈ ms, Whole length m) (hk : Expects known ms) (hbuf : buf <+: ms.flatten) :
    (cut (free (β := β) length) known seen buf).outcome = .more ∧
    (cut (free (β := β) length) known seen buf).seen <+: seen ++ ms := by
  induction ms generalizing known seen buf with
  | nil =>
      have hnil : buf = [] := List.prefix_nil.mp hbuf
      have hl : look (free (β := β) length).length known buf = .wait known := by
        rw [hnil, look_nil]
      rw [cut_wait hl]
      exact ⟨rfl, List.prefix_append _ _⟩
  | cons m ms ih =>
      rw [List.flatten_cons] at hbuf
      rcases look_whole hpc (hms m List.mem_cons_self) hk hbuf with
        ⟨known', hl, _, _⟩ | ⟨rest, hl, rfl, hrest⟩
      · have hl' : look (free (β := β) length).length known buf = .wait known' := hl
        rw [cut_wait hl']
        exact ⟨rfl, List.prefix_append _ _⟩
      · have hl' : look (free (β := β) length).length known (m ++ rest) = .message m rest := hl
        rw [cut_go hl' rfl]
        have hrec : (cut (free (β := β) length) 0 (seen ++ [m]) rest).outcome = .more ∧
            (cut (free (β := β) length) 0 (seen ++ [m]) rest).seen <+: seen ++ [m] ++ ms :=
          ih (seen ++ [m]) (fun m' hm' => hms m' (List.mem_cons_of_mem m hm'))
            (expects_zero ms) hrest
        rw [List.append_assoc, List.singleton_append] at hrec
        exact hrec

/-- **ALL THE BYTES** of a stream of whole messages are all of the messages,
    and nothing is left. -/
theorem cut_whole_all {known : Nat} {seen ms : List (List α)}
    (hms : ∀ m ∈ ms, Whole length m) (hk : Expects known ms) :
    cut (free (β := β) length) known seen ms.flatten = ⟨.more, seen ++ ms, 0, []⟩ := by
  induction ms generalizing known seen with
  | nil =>
      obtain rfl : known = 0 := hk
      have hl : look (free (β := β) length).length 0 [] = .wait 0 := look_nil _ _
      rw [List.flatten_nil, cut_wait hl, List.append_nil]
  | cons m ms ih =>
      have hm := hms m List.mem_cons_self
      rw [List.flatten_cons]
      rcases look_whole hpc hm hk (List.prefix_rfl (l := m ++ ms.flatten)) with
        ⟨known', hl, _, hshort⟩ | ⟨rest, hl, hrest, _⟩
      · rw [List.length_append] at hshort
        omega
      · have hl' : look (free (β := β) length).length known (m ++ ms.flatten)
            = .message m rest := hl
        rw [cut_go hl' rfl, ← List.append_cancel_left hrest,
          ih (fun m' hm' => hms m' (List.mem_cons_of_mem m hm')) (expects_zero ms),
          List.append_assoc, List.singleton_append]

end Stream

end Framing
