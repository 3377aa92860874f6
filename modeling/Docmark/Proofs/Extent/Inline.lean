import Mathlib
import Docmark.Construct.InlineFrame
import Docmark.Construct.InlineLeaf
import Docmark.Proofs.Extent.Line

/-!
# The extent of inlines

Escapes, addresses, tags, code spans and plain text, and the constructs around further inlines.  A
frame finds its closing mark before it reads what is between the marks, so its extent does not
depend on what the inner reading yields.
-/

namespace Docmark

/-! ## Leaves -/

lemma escape?_fits {cs : Text} {m : Found Inline.Leaf} (h : escape? cs = some m) : m.Fits cs := by
  simp only [escape?] at h
  split at h
  next c rest =>
    split at h
    next =>
      cases h
      exact ⟨Nat.two_pos, by simp⟩
    next => cases h
  next => cases h

lemma autoLink?_fits {cs : Text} {m : Found Inline.Leaf} (h : autoLink? cs = some m) :
    m.Fits cs := by
  simp only [autoLink?] at h
  split at h
  next rest =>
    split at h
    next hclosed =>
      cases h
      obtain ⟨hlt, -⟩ := List.getElem?_eq_some_iff.1 hclosed.1
      constructor
      · exact Nat.succ_pos _
      · show _ + 2 ≤ rest.length + 1
        omega
    next => cases h
  next => cases h

lemma bareLink?_fits {cs : Text} {m : Found Inline.Leaf} (h : bareLink? cs = some m) :
    m.Fits cs := by
  simp only [bareLink?] at h
  split at h
  next => cases h
  next scheme hscheme =>
    have hprefix : scheme.length ≤ cs.length :=
      (List.isPrefixOf_iff_prefix.1 (by simpa using List.find?_some hscheme)).length_le
    split at h
    next => cases h
    next hbody =>
      cases h
      have hpos := List.length_pos_iff.2 (mt List.isEmpty_iff.2 hbody)
      have hend := length_dropEndWhile_le isTrailing
        ((cs.drop scheme.length).takeWhile fun c => !(isSpace c || c == '<'))
      have hrun := length_takeWhile_le (p := fun c => !(isSpace c || c == '<'))
        (cs.drop scheme.length)
      rw [List.length_drop] at hrun
      constructor
      · simp only [List.length_append]
        omega
      · simp only [List.length_append]
        omega

lemma throughTicks?_le {run seen n : Nat} {cs : Text} (h : throughTicks? run seen cs = some n) :
    n ≤ cs.length := by
  induction cs generalizing seen n with
  | nil =>
    simp only [throughTicks?] at h
    split at h
    next => cases h; exact le_rfl
    next => cases h
  | cons c cs ih =>
    simp only [throughTicks?] at h
    split at h
    next =>
      obtain ⟨k, hk, rfl⟩ := Option.map_eq_some_iff.1 h
      exact Nat.succ_le_succ (ih hk)
    next =>
      split at h
      next => cases h; exact Nat.zero_le _
      next =>
        obtain ⟨k, hk, rfl⟩ := Option.map_eq_some_iff.1 h
        exact Nat.succ_le_succ (ih hk)

/-- The run of backticks that is found is counted with what stands in front of it. -/
lemma le_throughTicks? {run seen n : Nat} {cs : Text} (h : throughTicks? run seen cs = some n) :
    run ≤ seen + n := by
  induction cs generalizing seen n with
  | nil =>
    simp only [throughTicks?] at h
    split at h
    next hseen => cases h; exact hseen.ge
    next => cases h
  | cons c cs ih =>
    simp only [throughTicks?] at h
    split at h
    next =>
      obtain ⟨k, hk, rfl⟩ := Option.map_eq_some_iff.1 h
      have := ih hk
      omega
    next =>
      split at h
      next hseen => cases h; exact hseen.ge
      next =>
        obtain ⟨k, hk, rfl⟩ := Option.map_eq_some_iff.1 h
        have := ih hk
        omega

lemma codeSpan?_fits {cs : Text} {m : Found Inline.Leaf} (h : codeSpan? cs = some m) :
    m.Fits cs := by
  simp only [codeSpan?] at h
  split at h
  next => cases h
  next hrun =>
    obtain ⟨n, hn, rfl⟩ := Option.map_eq_some_iff.1 h
    have hle := throughTicks?_le hn
    have hstart := length_takeWhile_le (p := (· = '\x60')) cs
    rw [List.length_drop] at hle
    constructor
    · show 0 < _ + n
      omega
    · show _ + n ≤ cs.length
      omega

lemma lineBreak?_fits {cs : Text} {m : Found Inline.Leaf} (h : lineBreak? cs = some m) :
    m.Fits cs := by
  simp only [lineBreak?] at h
  split at h
  next rest =>
    cases h
    exact ⟨Nat.two_pos, by simp⟩
  next =>
    split at h
    next hfeed =>
      cases h
      obtain ⟨hlt, -⟩ := List.getElem?_eq_some_iff.1 hfeed.2
      exact ⟨Nat.succ_pos _, hlt⟩
    next => cases h

lemma plainLength_le (bare : Bool) (previous : Char) (cs : Text) :
    plainLength bare previous cs ≤ cs.length := by
  induction cs generalizing previous with
  | nil => exact le_rfl
  | cons c cs ih =>
    simp only [plainLength]
    split
    · exact Nat.zero_le _
    · exact Nat.succ_le_succ (ih c)

lemma plainText?_fits {bare : Bool} {cs : Text} {m : Found Inline.Leaf}
    (h : plainText? bare cs = some m) : m.Fits cs := by
  simp only [plainText?] at h
  split at h
  next => cases h
  next c rest =>
    cases h
    exact ⟨Nat.succ_pos _, Nat.succ_le_succ (plainLength_le bare c rest)⟩

/-- Plain text takes something wherever something is left. -/
lemma plainText?_isSome (bare : Bool) {cs : Text} (h : cs ≠ []) : (plainText? bare cs).isSome := by
  obtain ⟨c, rest, rfl⟩ := List.exists_cons_of_ne_nil h
  rfl

/-! ## Tags -/

lemma attributeValue?_length {cs left : Text} (h : attributeValue? cs = some left) :
    left.length ≤ cs.length := by
  simp only [attributeValue?] at h
  split at h
  next => cases h
  next c rest =>
    split at h
    next =>
      split at h
      next => cases h
      next d after hafter =>
        cases h
        have hquote : (d :: left).length ≤ rest.length := by
          rw [← hafter]
          exact length_dropWhile_le rest
        simp only [List.length_cons] at hquote ⊢
        omega
    next =>
      split at h
      next =>
        cases h
        exact (length_dropWhile_le rest).trans (Nat.le_succ _)
      next => cases h

lemma skipValue_length (cs : Text) : (skipValue cs).length ≤ cs.length := by
  simp only [skipValue]
  split
  next rest hrest =>
    have hspace : ('=' :: rest).length ≤ cs.length := by
      rw [← hrest]
      exact length_dropWhile_le cs
    cases hvalue : attributeValue? (rest.dropWhile isSpace) with
    | none => exact le_rfl
    | some left =>
      have hleft := attributeValue?_length hvalue
      have hrest := length_dropWhile_le (p := isSpace) rest
      simp only [List.length_cons] at hspace
      show left.length ≤ cs.length
      omega
  next => exact le_rfl

lemma skipAttribute?_length {cs left : Text} (h : skipAttribute? cs = some left) :
    left.length ≤ cs.length := by
  have hspaces {rest : Text} (h : spaces1? cs = some rest) : rest.length ≤ cs.length := by
    simp only [spaces1?] at h
    split at h
    next => cases h
    next =>
      split at h
      next =>
        cases h
        exact (length_dropWhile_le _).trans (Nat.le_succ _)
      next => cases h
  simp only [skipAttribute?] at h
  split at h
  next => cases h
  next => cases h
  next c rest hrest =>
    split at h
    next =>
      cases h
      have := hspaces hrest
      rw [List.length_cons] at this
      have hname := length_dropWhile_le (p := isAttributeChar) rest
      have hvalue := skipValue_length (rest.dropWhile isAttributeChar)
      omega
    next => cases h

lemma skipAttributes_length (fuel : Nat) (cs : Text) :
    (skipAttributes fuel cs).length ≤ cs.length := by
  induction fuel generalizing cs with
  | zero => exact le_rfl
  | succ fuel ih =>
    simp only [skipAttributes]
    split
    next => exact le_rfl
    next rest hrest => exact (ih rest).trans (skipAttribute?_length hrest)

lemma tagEnd?_length {cs left : Text} (h : tagEnd? cs = some left) : left.length ≤ cs.length := by
  have hspace := length_dropWhile_le (p := isSpace) cs
  simp only [tagEnd?] at h
  split at h
  next rest hrest =>
    cases h
    rw [hrest, List.length_cons] at hspace
    omega
  next rest hrest =>
    cases h
    rw [hrest] at hspace
    simp only [List.length_cons] at hspace
    omega
  next => cases h

lemma comment_length_le {cs : Text} {n : Nat}
    (h : (if "<!--".toList.isPrefixOf cs then
      (indexOf? "-->".toList (cs.drop 4)).map (· + 7) else none) = some n) :
    0 < n ∧ n ≤ cs.length := by
  split at h
  next =>
    obtain ⟨k, hk, rfl⟩ := Option.map_eq_some_iff.1 h
    have hend := indexOf?_add_le hk
    have hlen : "-->".toList.length = 3 := rfl
    rw [List.length_drop] at hend
    omega
  next => cases h

lemma tag?_fits {cs : Text} {m : Found Inline.Leaf} (h : tag? cs = some m) : m.Fits cs := by
  obtain ⟨n, hn, rfl⟩ := Option.map_eq_some_iff.1 h
  simp only [tagLength?] at hn
  split at hn
  next k hk =>
    cases hn
    exact comment_length_le hk
  next =>
    split at hn
    next _ rest _ =>
      -- the name may stand behind a slash
      have hslash := length_dropFront_le '/' rest
      have hname {body : Text} (hbody : body.length ≤ rest.length)
          (hn : (if (elementName body).isEmpty then none
            else (tagEnd? (skipAttributes (body.drop (elementName body).length).length
              (body.drop (elementName body).length))).map
                fun left => ('<' :: rest).length - left.length) = some n) :
          0 < n ∧ n ≤ ('<' :: rest).length := by
        split at hn
        next => cases hn
        next =>
          obtain ⟨left, hleft, rfl⟩ := Option.map_eq_some_iff.1 hn
          have hend := (tagEnd?_length hleft).trans (skipAttributes_length _ _)
          rw [List.length_drop] at hend
          rw [List.length_cons]
          omega
      exact hname hslash hn
    next => cases hn

/-! ## Links -/

lemma labelLength?_lt {depth bytes n : Nat} {escaped : Bool} {cs : Text}
    (h : labelLength? depth escaped bytes cs = some n) : n < cs.length := by
  induction cs generalizing depth escaped bytes n with
  | nil => simp [labelLength?] at h
  | cons c cs ih =>
    have hmore {depth bytes : Nat} {escaped : Bool}
        (h : (labelLength? depth escaped bytes cs).map (· + 1) = some n) :
        n < (c :: cs).length := by
      obtain ⟨k, hk, rfl⟩ := Option.map_eq_some_iff.1 h
      exact Nat.succ_lt_succ (ih hk)
    simp only [labelLength?] at h
    split at h
    next => cases h
    next =>
      split at h
      next => exact hmore h
      next =>
        split at h
        next => exact hmore h
        next =>
          split at h
          next => exact hmore h
          next =>
            split at h
            next =>
              split at h
              next =>
                cases h
                exact Nat.succ_pos _
              next => exact hmore h
            next => exact hmore h

/-- A label lies within the text with both of its brackets. -/
lemma label?_length_le {cs : Text} {l : Label} (h : label? cs = some l) :
    l.length ≤ cs.length := by
  simp only [label?] at h
  split at h
  next rest =>
    obtain ⟨n, hn, rfl⟩ := Option.map_eq_some_iff.1 h
    have := labelLength?_lt hn
    simp only [Label.length, Label.start, List.length_take, if_true, List.length_cons]
    omega
  next rest =>
    obtain ⟨n, hn, rfl⟩ := Option.map_eq_some_iff.1 h
    have := labelLength?_lt hn
    simp only [Label.length, Label.start, List.length_take, List.length_cons, Bool.false_eq_true,
      if_false]
    omega
  next => cases h

/-- The text of a label is a slice of the input. -/
lemma label?_hasSlice {cs : Text} {l : Label} (h : label? cs = some l) :
    HasSlice cs l.start l.text := by
  simp only [label?] at h
  split at h
  next rest =>
    obtain ⟨n, -, rfl⟩ := Option.map_eq_some_iff.1 h
    exact ⟨['!', '['], rest.drop n, by simp, rfl⟩
  next rest =>
    obtain ⟨n, -, rfl⟩ := Option.map_eq_some_iff.1 h
    exact ⟨['['], rest.drop n, by simp, rfl⟩
  next => cases h

lemma destination?_length {cs : Text} {d : Found Destination} (h : destination? cs = some d) :
    d.length ≤ cs.length := by
  simp only [destination?] at h
  split at h
  next =>
    split at h
    next => cases h
    next =>
      split at h
      next =>
        cases h
        exact Nat.sub_le _ _
      next => cases h
  next => cases h

lemma reference?_length {defs : Definitions} {l : Label} {cs : Text} {d : Found Destination}
    (h : reference? defs l cs = some d) : d.length ≤ cs.length := by
  simp only [reference?] at h
  split at h
  next rest =>
    split at h
    next => cases h
    next hclosed =>
      obtain ⟨dest, -, rfl⟩ := Option.map_eq_some_iff.1 h
      have hkey := length_takeWhile_le (p := (decide <| · ≠ ']')) rest
      have hne := (not_or.1 hclosed).1
      simp only [List.length_cons]
      omega
  next => cases h

lemma shortcut?_length {defs : Definitions} {l : Label} {cs : Text} {d : Found Destination}
    (h : shortcut? defs l cs = some d) : d.length ≤ cs.length := by
  obtain ⟨dest, -, rfl⟩ := Option.map_eq_some_iff.1 h
  exact Nat.zero_le _

section Link

variable {nest : Option InlineReader} {scope : Scope} {cur : Cursor} {m : Found Inline.Body}

/-- **What a label makes.**  A destination is found for it behind the label.  It is an image, or a link
around what is read of its text; and a link stands in no other. -/
lemma exists_of_linkVia {target : Label → Text → Option (Found Destination)}
    (h : linkVia target nest scope cur = .ok (some m)) :
    ∃ l d, label? cur.rest = some l ∧ target l (cur.rest.drop l.length) = some d ∧
      (m = ⟨l.length + d.length, .leaf (.image d.value.href d.value.title l.text)⟩ ∨
        ∃ read ts, nest = some read ∧ scope.has Scope.isInLink = false ∧
          read scope.insideLink l.text (cur.pointAt l.start) = .ok ts ∧
          m = ⟨l.length + d.length, .node (.link d.value.href d.value.title) ts⟩) := by
  simp only [linkVia] at h
  split at h
  next => cases h
  next l hl =>
    split at h
    next hallowed =>
      split at h
      next => cases h
      next d hd =>
        refine ⟨l, d, hl, hd, ?_⟩
        simp only [Label.toInline] at h
        split at h
        next =>
          cases h
          exact .inl rfl
        next himage =>
          simp only [Label.allowed, himage, Bool.false_or, Bool.and_eq_true,
            Bool.not_eq_true'] at hallowed
          split at h
          next => cases h
          next read =>
            split at h
            next => cases h
            next ts hts =>
              cases h
              exact .inr ⟨read, ts, rfl, hallowed.1, hts, rfl⟩
    next => cases h

lemma linkVia_fits {target : Label → Text → Option (Found Destination)}
    (htarget : ∀ l cs d, target l cs = some d → d.length ≤ cs.length)
    (h : linkVia target nest scope cur = .ok (some m)) : m.Fits cur.rest := by
  obtain ⟨l, d, hl, hd, hm⟩ := exists_of_linkVia h
  have hlabel := label?_length_le hl
  have htail := htarget _ _ _ hd
  rw [List.length_drop] at htail
  have hlength : m.length = l.length + d.length := by
    obtain rfl | ⟨read, ts, -, -, -, rfl⟩ := hm <;> rfl
  have hpos : 0 < l.length := Nat.succ_pos _
  exact ⟨by omega, by omega⟩

end Link

/-! ## Emphasis -/

lemma closingPair?_le {mark : Char} {atStart : Bool} {cs : Text} {n : Nat}
    (h : closingPair? mark atStart cs = some n) : n + 2 ≤ cs.length := by
  fun_induction closingPair? mark atStart cs generalizing n with
  | case1 => cases h
  | case2 => cases h
  | case3 atStart c rest ih =>
    obtain ⟨k, hk, rfl⟩ := Option.map_eq_some_iff.1 h
    have := ih hk
    simp only [List.length_cons]
    omega
  | case4 atStart c cs _ hmark =>
    cases h
    obtain ⟨d, ds, rfl⟩ : ∃ d ds, cs = d :: ds := by
      cases cs with
      | nil => simp at hmark
      | cons d ds => exact ⟨d, ds, rfl⟩
    simp
  | case5 atStart c cs _ _ ih =>
    obtain ⟨k, hk, rfl⟩ := Option.map_eq_some_iff.1 h
    have := ih hk
    simp only [List.length_cons]
    omega

/-- A text between two pairs of marks ends in front of the pair that closes it. -/
lemma exists_of_betweenPairs? {mark : Char} {cs content : Text}
    (h : betweenPairs? mark cs = some content) :
    ∃ inner n, cs = mark :: mark :: inner ∧ closingPair? mark true inner = some n ∧
      content = inner.take n := by
  simp only [betweenPairs?] at h
  split at h
  next a b inner =>
    split at h
    next hmarks =>
      obtain ⟨rfl, rfl, -⟩ := hmarks
      split at h
      next => cases h
      next n hn =>
        split at h
        next => cases h
        next =>
          cases h
          exact ⟨inner, n, rfl, hn, rfl⟩
    next => cases h
  next => cases h

lemma betweenPairs?_hasSlice {mark : Char} {cs content : Text}
    (h : betweenPairs? mark cs = some content) : HasSlice cs 2 content := by
  obtain ⟨inner, n, rfl, -, rfl⟩ := exists_of_betweenPairs? h
  exact ⟨[mark, mark], inner.drop n, by simp, rfl⟩

lemma betweenPairs?_length {mark : Char} {cs content : Text}
    (h : betweenPairs? mark cs = some content) : content.length + 2 * 2 ≤ cs.length := by
  obtain ⟨inner, n, rfl, hn, rfl⟩ := exists_of_betweenPairs? h
  have := closingPair?_le hn
  simp only [List.length_take, List.length_cons]
  omega

lemma closingMark?_lt {mark : Char} {atStart : Bool} {cs : Text} {n : Nat}
    (h : closingMark? mark atStart cs = some n) : n < cs.length := by
  fun_induction closingMark? mark atStart cs generalizing n with
  | case1 => cases h
  | case2 => cases h
  | case3 atStart c rest ih =>
    obtain ⟨k, hk, rfl⟩ := Option.map_eq_some_iff.1 h
    have := ih hk
    simp only [List.length_cons]
    omega
  | case4 atStart c cs _ _ ih =>
    obtain ⟨k, hk, rfl⟩ := Option.map_eq_some_iff.1 h
    exact Nat.succ_lt_succ (ih hk)
  | case5 => cases h
  | case6 =>
    cases h
    exact Nat.succ_pos _
  | case7 _ _ _ _ _ ih =>
    obtain ⟨k, hk, rfl⟩ := Option.map_eq_some_iff.1 h
    have := ih hk
    simp only [List.length_cons]
    omega
  | case8 => cases h
  | case9 _ _ _ _ _ _ _ _ _ ih =>
    obtain ⟨k, hk, rfl⟩ := Option.map_eq_some_iff.1 h
    exact Nat.succ_lt_succ (ih hk)
  | case10 =>
    cases h
    exact Nat.succ_pos _

/-- A text between two marks ends in front of the mark that closes it. -/
lemma exists_of_betweenMarks? {cs content : Text} (h : betweenMarks? cs = some content) :
    ∃ mark inner n, cs = mark :: inner ∧ closingMark? mark true inner = some n ∧
      content = inner.take n := by
  simp only [betweenMarks?] at h
  split at h
  next => cases h
  next mark inner =>
    split at h
    next =>
      split at h
      next => cases h
      next n hn =>
        split at h
        next => cases h
        next =>
          cases h
          exact ⟨mark, inner, n, rfl, hn, rfl⟩
    next => cases h

lemma betweenMarks?_hasSlice {cs content : Text} (h : betweenMarks? cs = some content) :
    HasSlice cs 1 content := by
  obtain ⟨mark, inner, n, rfl, -, rfl⟩ := exists_of_betweenMarks? h
  exact ⟨[mark], inner.drop n, by simp, rfl⟩

lemma betweenMarks?_length {cs content : Text} (h : betweenMarks? cs = some content) :
    content.length + 2 * 1 ≤ cs.length := by
  obtain ⟨mark, inner, n, rfl, hn, rfl⟩ := exists_of_betweenMarks? h
  have := closingMark?_lt hn
  simp only [List.length_take, List.length_cons]
  omega

/-- A frame stands around what is read of its content. -/
lemma exists_of_framed {frame : Inline.Frame} {size : Nat} {content : Option Text}
    {nest : Option InlineReader} {scope : Scope} {cur : Cursor} {m : Found Inline.Body}
    (h : framed frame size content nest scope cur = .ok (some m)) :
    ∃ read text ts, nest = some read ∧ content = some text ∧
      read scope.descend text (cur.pointAt size) = .ok ts ∧
      m = ⟨text.length + 2 * size, .node frame ts⟩ := by
  simp only [framed] at h
  split at h
  next read text =>
    split at h
    next => cases h
    next ts hts =>
      cases h
      exact ⟨read, text, ts, rfl, rfl, hts, rfl⟩
  next => cases h

lemma framed_fits {frame : Inline.Frame} {size : Nat} {content : Option Text}
    {nest : Option InlineReader} {scope : Scope} {cur : Cursor} {m : Found Inline.Body}
    (hsize : 0 < size) (hcontent : ∀ c, content = some c → c.length + 2 * size ≤ cur.rest.length)
    (h : framed frame size content nest scope cur = .ok (some m)) : m.Fits cur.rest := by
  obtain ⟨read, text, ts, -, htext, -, rfl⟩ := exists_of_framed h
  refine ⟨?_, hcontent text htext⟩
  show 0 < text.length + 2 * size
  omega

end Docmark
