/-
  Logs whose items are numbered 1, 2, …, of which a window is retained, and the
  consumers that follow them.

  A consumer follows a stream: what it took and what still waits for it is a
  prefix of the stream, and all of it while nothing was lost.
-/
import Mathlib.Data.List.Basic
import Mathlib.Data.List.Infix
import Mathlib.Data.Nat.Notation

set_option autoImplicit false

namespace Log

variable {α : Type}

/-- The items with numbers `m + 1 .. n`, each with its number. -/
def span (history : List α) (m n : ℕ) : List (α × ℕ) := ((history.zipIdx 1).take n).drop m

variable {history : List α} {m n k s : ℕ} {x : α}

theorem mem_span : (x, s) ∈ span history m n ↔ m < s ∧ s ≤ n ∧ history[s - 1]? = some x := by
  simp only [span, List.mem_iff_getElem?, List.getElem?_drop, List.getElem?_take,
    List.getElem?_zipIdx]
  constructor
  · rintro ⟨i, hi⟩
    split at hi
    · obtain ⟨y, hy, he⟩ := Option.map_eq_some_iff.1 hi
      cases he
      refine ⟨by omega, by omega, ?_⟩
      rw [← hy]; congr 1; omega
    · cases hi
  · rintro ⟨h1, h2, h3⟩
    refine ⟨s - 1 - m, ?_⟩
    rw [if_pos (by omega), show m + (s - 1 - m) = s - 1 by omega, h3, Option.map_some,
      show 1 + (s - 1) = s by omega]

theorem span_self : span history m m = [] := by
  simp [span]

/-- Later items do not change a span of earlier ones. -/
theorem span_append {more : List α} (h : n ≤ history.length) :
    span (history ++ more) m n = span history m n := by
  unfold span
  rw [List.zipIdx_append, List.take_append_of_le_length (by simpa using h)]

theorem span_concat (h1 : m ≤ n) (h2 : n ≤ k) (hk : k ≤ history.length) :
    span history m n ++ span history n k = span history m k := by
  unfold span
  have hsplit : (history.zipIdx 1).take k =
      (history.zipIdx 1).take n ++ ((history.zipIdx 1).take k).drop n := by
    conv_lhs => rw [← List.take_append_drop n ((history.zipIdx 1).take k)]
    rw [List.take_take, Nat.min_eq_left h2]
  conv_rhs => rw [hsplit]
  rw [List.drop_append_of_le_length]
  simp only [List.length_take, List.length_zipIdx]
  omega

/-- One more item at the end. -/
theorem span_push (h : m ≤ history.length) :
    span (history ++ [x]) m (history.length + 1) =
      span history m history.length ++ [(x, history.length + 1)] := by
  have hlen : (history ++ [x]).length = history.length + 1 := by simp
  rw [← span_concat h (Nat.le_succ _) hlen.ge, span_append le_rfl]
  congr 1
  unfold span
  simp [List.zipIdx_append, List.take_of_length_le, Nat.add_comm]

/-- A span that is not empty starts with the item after its lower end. -/
theorem span_cons {rest : List (α × ℕ)} (h : span history m n = (x, s) :: rest) :
    s = m + 1 ∧ m < n ∧ rest = span history (m + 1) n := by
  have hm : (span history m n)[0]? = some (x, s) := by rw [h]; rfl
  simp only [span, List.getElem?_drop, List.getElem?_take, List.getElem?_zipIdx] at hm
  split at hm
  · rename_i hlt
    obtain ⟨y, -, he⟩ := Option.map_eq_some_iff.1 hm
    cases he
    refine ⟨by omega, by omega, ?_⟩
    have ht : (span history m n).tail = rest := by rw [h]; rfl
    rw [← ht]
    simp [span, List.tail_drop]
  · cases hm

theorem length_span (h : n ≤ history.length) : (span history m n).length = n - m := by
  simp [span, Nat.min_eq_left h]

/-- The items after a number `c` are a span again. -/
theorem span_filter (h : n ≤ history.length) (c : ℕ) :
    (span history m n).filter (fun y => c < y.2) = span history (max c m) n := by
  rcases Nat.lt_or_ge n (max c m) with hlt | hle
  · have hnil : span history (max c m) n = [] := by
      simp only [span, List.drop_eq_nil_iff, List.length_take]
      omega
    rw [hnil, List.filter_eq_nil_iff]
    rintro ⟨x, s⟩ hx
    obtain ⟨h1, h2, -⟩ := mem_span.1 hx
    simp only [decide_eq_true_eq]
    omega
  · rw [← span_concat (le_max_right c m) hle h, List.filter_append]
    have h1 : (span history m (max c m)).filter (fun y => c < y.2) = [] := by
      rw [List.filter_eq_nil_iff]
      rintro ⟨x, s⟩ hx
      obtain ⟨h1, h2, -⟩ := mem_span.1 hx
      simp only [decide_eq_true_eq]
      omega
    have h2 : (span history (max c m) n).filter (fun y => c < y.2) = span history (max c m) n := by
      rw [List.filter_eq_self]
      rintro ⟨x, s⟩ hx
      obtain ⟨h1, -, -⟩ := mem_span.1 hx
      simp only [decide_eq_true_eq]
      omega
    rw [h1, h2, List.nil_append]

/-! ## Consumers -/

/-- A consumer that took `taken` of a stream, and for which `waiting` waits;
    while it is `attached`, it has or will get all of the stream. -/
structure Follows (stream taken waiting : List α) (attached : Prop) : Prop where
  isPrefix : taken ++ waiting <+: stream
  all : attached → taken ++ waiting = stream

namespace Follows

variable {stream taken waiting : List α} {attached : Prop}

/-- Nothing happens to the consumer, or it loses its place. -/
theorem weaken (h : Follows stream taken waiting attached) {attached' : Prop}
    (ha : attached' → attached) : Follows stream taken waiting attached' :=
  ⟨h.isPrefix, fun h' => h.all (ha h')⟩

/-- What still waits is dropped. -/
theorem drop (h : Follows stream taken waiting attached) {attached' : Prop}
    (ha : ¬ attached') : Follows stream taken [] attached' :=
  ⟨by simpa using (List.prefix_append taken waiting).trans h.isPrefix, fun h' => absurd h' ha⟩

/-- The consumer takes the first item that waits. -/
theorem take {item : α} (h : Follows stream taken (item :: waiting) attached) :
    Follows stream (taken ++ [item]) waiting attached :=
  ⟨by simpa using h.isPrefix, fun h' => by simpa using h.all h'⟩

/-- An item comes while the consumer is attached. -/
theorem push (h : Follows stream taken waiting attached) (ha : attached) (item : α)
    {attached' : Prop} :
    Follows (stream ++ [item]) taken (waiting ++ [item]) attached' := by
  have he : taken ++ (waiting ++ [item]) = stream ++ [item] := by
    rw [← List.append_assoc, h.all ha]
  exact ⟨by rw [he], fun _ => he⟩

theorem taken_prefix (h : Follows stream taken waiting attached) : taken <+: stream :=
  (List.prefix_append taken waiting).trans h.isPrefix

end Follows

end Log
