import Mathlib
import Docmark.Proofs.Text.Bytes

/-!
# Slices of a text

A cursor is asked for some bytes, then for some more, and so on.  What it yields each time is a
slice of whole characters: it ends at the first boundary between two characters at which the bytes
asked for are there, or at the end of the text.  Boundaries are those of the text's UTF-8 form, so
they are told without the cursor (`IsBoundary`); that a cursor stops at the first of them is a fact
about one request (`Cursor.consume_isLeast`).

A row of requests leaves nothing out and takes nothing twice.  The slices are counted in three ways
at once: in bytes by the cursor, in lines and columns by its point, and in both by the spans, and
the three counts agree after every row.

## Main definitions

* `IsBoundary` — a place in a text, in bytes, that lies in no character.
* `Cursor.consumeAll` — what a row of requests yields.
* `CutAtBoundaries` — slices of a text, each cut at the first boundary that covers its request.
* `SpansAbut` — spans that lie next to each other.

## Main results

* `Cursor.consumeAll_accounts` — slices, spans, count of bytes and point of a cursor after any row
  of requests.
-/

namespace Docmark

/-! ## Boundaries -/

/-- `b` bytes behind the start of a text no character is cut in two: it is the end of the text, or
a character starts there. -/
def IsBoundary (cs : Text) (b : Nat) : Prop := String.Pos.Raw.IsValid (String.ofList cs) ⟨b⟩

lemma byteLength_eq_utf8ByteSize (cs : Text) : byteLength cs = (String.ofList cs).utf8ByteSize := by
  rw [String.utf8ByteSize_ofList]
  induction cs with
  | nil => rfl
  | cons c cs ih => rw [byteLength_cons, String.utf8Len_cons, ih, Nat.add_comm]

/-- The boundaries of a text are the ends of what it starts with. -/
lemma isBoundary_iff {cs : Text} {b : Nat} : IsBoundary cs b ↔ ∃ n, b = byteLength (cs.take n) := by
  simp only [IsBoundary, String.Pos.Raw.isValid_ofList, byteLength_eq_utf8ByteSize]

lemma byteLength_take_mono (cs : Text) {m n : Nat} (h : m ≤ n) :
    byteLength (cs.take m) ≤ byteLength (cs.take n) :=
  byteLength_le_of_sublist (List.take_sublist_take_left h)

namespace Cursor

/-! ## One request -/

/-- The characters that cover some bytes have as many bytes, or are all there are. -/
lemma le_byteLength_charsCovering (bytes : Nat) (cs : Text) :
    min bytes (byteLength cs) ≤ byteLength (cs.take (charsCovering bytes cs)) := by
  fun_induction charsCovering bytes cs with
  | case1 => simp
  | case2 => simp
  | case3 n c cs ih =>
    rw [List.take_succ_cons, byteLength_cons, byteLength_cons]
    omega

/-- No fewer characters cover them. -/
lemma charsCovering_le {bytes : Nat} {cs : Text} {n : Nat}
    (h : min bytes (byteLength cs) ≤ byteLength (cs.take n)) : charsCovering bytes cs ≤ n := by
  fun_induction charsCovering bytes cs generalizing n with
  | case1 => exact Nat.zero_le _
  | case2 => exact Nat.zero_le _
  | case3 bytes c cs ih =>
    have hpos := c.utf8Size_pos
    cases n with
    | zero =>
      rw [List.take_zero, byteLength_nil, byteLength_cons] at h
      omega
    | succ n =>
      rw [List.take_succ_cons, byteLength_cons, byteLength_cons] at h
      exact Nat.succ_le_succ (ih (by omega))

/-- A slice ends at the first boundary of what was left at which the bytes asked for are there, or
all that were left. -/
lemma consume_isLeast (c : Cursor) (bytes : Nat) :
    IsLeast {b | IsBoundary c.rest b ∧ min bytes (byteLength c.rest) ≤ b}
      (byteLength (c.consume bytes).1) := by
  refine ⟨⟨isBoundary_iff.2 ⟨_, rfl⟩, le_byteLength_charsCovering bytes c.rest⟩, ?_⟩
  rintro b ⟨hb, hle⟩
  obtain ⟨n, rfl⟩ := isBoundary_iff.1 hb
  exact byteLength_take_mono c.rest (charsCovering_le hle)

/-! ## A row of requests -/

/-- What a row of requests yields, and the cursor behind it. -/
structure Consumption where
  slices : List Text
  spans : List Span
  last : Cursor

/-- Consumes as many bytes as the first request says, then as many as the next one, and so on. -/
def consumeAll (c : Cursor) : List Nat → Consumption
  | [] => ⟨[], [], c⟩
  | bytes :: requests =>
    let (slice, span, next) := c.consume bytes
    let later := next.consumeAll requests
    ⟨slice :: later.slices, span :: later.spans, later.last⟩

end Cursor

/-- Slices that are cut off a text one after another, one for each request: each ends at the first
boundary of what was left at which the bytes asked for are there, or all that were left. -/
inductive CutAtBoundaries : Text → List Nat → List Text → Prop
  | nil {rest : Text} : CutAtBoundaries rest [] []
  | cons {slice rest : Text} {bytes : Nat} {requests : List Nat} {slices : List Text}
      (hcut : IsLeast
        {b | IsBoundary (slice ++ rest) b ∧ min bytes (byteLength (slice ++ rest)) ≤ b}
        (byteLength slice))
      (hlater : CutAtBoundaries rest requests slices) :
      CutAtBoundaries (slice ++ rest) (bytes :: requests) (slice :: slices)

/-- Spans that lie next to each other from `p` to `q`.  They may be empty, as the span of a slice
without characters is. -/
def SpansAbut : Point → List Span → Point → Prop
  | p, [], q => p = q
  | p, s :: ss, q => s.start = p ∧ SpansAbut s.stop ss q

namespace Cursor

variable (c : Cursor) (requests : List Nat)

lemma consumeAll_joined :
    (c.consumeAll requests).slices.flatten ++ (c.consumeAll requests).last.rest = c.rest := by
  induction requests generalizing c with
  | nil => rfl
  | cons bytes requests ih =>
    simp only [consumeAll, consume, List.flatten_cons, List.append_assoc, ih]
    exact List.take_append_drop _ _

lemma consumeAll_consumed :
    (c.consumeAll requests).last.consumed =
      c.consumed + byteLength (c.consumeAll requests).slices.flatten := by
  induction requests generalizing c with
  | nil => rfl
  | cons bytes requests ih =>
    simp only [consumeAll, consume, List.flatten_cons, byteLength_append, ih, drop]
    omega

lemma consumeAll_point :
    (c.consumeAll requests).last.point =
      c.point.advance (c.consumeAll requests).slices.flatten := by
  induction requests generalizing c with
  | nil => rfl
  | cons bytes requests ih =>
    simp only [consumeAll, consume, List.flatten_cons, Point.advance_append, ih, drop]

lemma consumeAll_cutAtBoundaries :
    CutAtBoundaries c.rest requests (c.consumeAll requests).slices := by
  induction requests generalizing c with
  | nil => exact .nil
  | cons bytes requests ih =>
    have hcut := c.consume_isLeast bytes
    have hsplit : (c.consume bytes).1 ++ (c.consume bytes).2.2.rest = c.rest :=
      List.take_append_drop _ _
    rw [← hsplit] at hcut ⊢
    exact .cons hcut (ih _)

lemma consumeAll_spansAbut :
    SpansAbut c.point (c.consumeAll requests).spans (c.consumeAll requests).last.point := by
  induction requests generalizing c with
  | nil => rfl
  | cons bytes requests ih => exact ⟨rfl, ih _⟩

/-- Each span leads over its slice. -/
lemma consumeAll_spans :
    List.Forall₂ (fun slice span => span.stop = span.start.advance slice)
      (c.consumeAll requests).slices (c.consumeAll requests).spans := by
  induction requests generalizing c with
  | nil => exact .nil
  | cons bytes requests ih => exact .cons rfl (ih _)

/-- **A cursor accounts for its text.**  Whatever text a cursor is made on, from whatever origin,
and whatever bytes are asked for one after another, with no bound on them: the slices, joined with
what is left, are the text, and the cursor counts their bytes; each slice ends at the first boundary
at or behind the bytes asked for, or as many as were left; the spans lie next to each other, each
leading over its slice; and the point is the origin, advanced over the joined slices, where
advancing over two texts in a row is advancing over the one and then over the other. -/
theorem consumeAll_accounts (text : Text) (origin : Point) (requests : List Nat) :
    let row := (ofText text origin).consumeAll requests
    row.slices.flatten ++ row.last.rest = text ∧
    row.last.consumed = byteLength row.slices.flatten ∧
    CutAtBoundaries text requests row.slices ∧
    SpansAbut origin row.spans row.last.point ∧
    List.Forall₂ (fun slice span => span.stop = span.start.advance slice) row.slices row.spans ∧
    row.last.point = origin.advance row.slices.flatten ∧
    ∀ (p : Point) (front back : Text),
      p.advance (front ++ back) = (p.advance front).advance back := by
  intro row
  set start := ofText text origin
  have hconsumed := start.consumeAll_consumed requests
  rw [show start.consumed = 0 from rfl, Nat.zero_add] at hconsumed
  exact ⟨start.consumeAll_joined requests, hconsumed, start.consumeAll_cutAtBoundaries requests,
    start.consumeAll_spansAbut requests, start.consumeAll_spans requests,
    start.consumeAll_point requests, Point.advance_append⟩

/-- A request that ends within a character takes all of it; one behind the end yields nothing. -/
example : ((ofText "aé🎉".toList ⟨7, 4, 100⟩).consumeAll [2, 1, 9]).slices =
    ["aé".toList, "🎉".toList, []] := by
  decide

end Cursor

end Docmark
