import Mathlib
import Docmark.Construct.Definition
import Docmark.Construct.Directive
import Docmark.Proofs.Extent.Line

/-!
# The extent of bracketed constructs

Link definitions, include directives, the markers of callouts and cross references.  Their
recognisers pass on what is left of the text, so each reader below comes with a bound on the length
of what it leaves, and each construct fits because something is gone.
-/

namespace Docmark

lemma lineTail?_length {cs left : Text} (h : lineTail? cs = some left) :
    left.length ≤ cs.length := by
  simp only [lineTail?] at h
  split at h
  next =>
    cases h
    exact (length_dropWhile_le _).trans (length_dropWhile_le _)
  next => cases h

/-! ## Link definitions -/

lemma lineTitle?_length {cs title left : Text} (h : lineTitle? cs = some (title, left)) :
    left.length ≤ cs.length := by
  simp only [lineTitle?] at h
  have hpad := length_dropWhile_le (p := isPad) cs
  split at h
  next => cases h
  next c rest hrest =>
    rw [hrest, List.length_cons] at hpad
    split at h
    next => cases h
    next closer hcloser =>
      split at h
      next => cases h
      next =>
        split at h
        next d after hafter =>
          have hdrop := congrArg List.length hafter
          rw [List.length_drop, List.length_cons] at hdrop
          split at h
          next =>
            cases h
            omega
          next => cases h
        next => cases h

lemma definitionTail?_length {cs left : Text} {title : Option Text}
    (h : definitionTail? cs = some (title, left)) : left.length ≤ cs.length := by
  simp only [definitionTail?] at h
  split at h
  next t rest htitle =>
    obtain ⟨l, hl, heq⟩ := Option.map_eq_some_iff.1 h
    cases heq
    exact (lineTail?_length hl).trans (lineTitle?_length htitle)
  next =>
    obtain ⟨l, hl, heq⟩ := Option.map_eq_some_iff.1 h
    cases heq
    exact lineTail?_length hl

lemma definitionHref?_length {cs href left : Text} (h : definitionHref? cs = some (href, left)) :
    left.length ≤ cs.length := by
  have hread {body : Text} (hbody : body.length ≤ cs.length)
      (h : (if (body.takeWhile fun c => !(isSpace c || c == '>')).isEmpty then none
        else some (body.takeWhile fun c => !(isSpace c || c == '>'), dropFront '>'
          (body.drop (body.takeWhile fun c => !(isSpace c || c == '>')).length))) =
            some (href, left)) : left.length ≤ cs.length := by
    split at h
    next => cases h
    next =>
      cases h
      refine (length_dropFront_le _ _).trans ?_
      rw [List.length_drop]
      omega
  -- the destination is read from the text or from behind an angle bracket
  refine hread ?_ h
  split
  next => exact le_rfl
  next => exact length_dropFront_le _ _

lemma definitionBody?_length {cs left : Text} {d : Destination}
    (h : definitionBody? cs = some (d, left)) : left.length ≤ cs.length := by
  simp only [definitionBody?] at h
  split at h
  next => cases h
  next href after hhref =>
    split at h
    next => cases h
    next title rest htail =>
      cases h
      refine (definitionTail?_length htail).trans ((definitionHref?_length hhref).trans ?_)
      have hpad := length_dropWhile_le (p := isPad) cs
      split
      next below hbelow =>
        rw [hbelow, List.length_cons] at hpad
        have := length_dropWhile_le (p := isPad) below
        omega
      next => exact hpad

lemma linkDefinition?_fits {scope : Scope} {cs : Text} {m : Found Block.Leaf}
    (h : linkDefinition? scope cs = some m) : m.Fits cs := by
  simp only [linkDefinition?] at h
  have hblank := length_dropWhile_le (p := (· = ' ')) cs
  split at h
  next => cases h
  next =>
    split at h
    next rest hrest =>
      rw [hrest, List.length_cons] at hblank
      split at h
      next after hafter =>
        have hdrop := congrArg List.length hafter
        simp only [List.length_drop, List.length_cons] at hdrop
        split at h
        next => cases h
        next =>
          split at h
          next => cases h
          next d left hbody =>
            cases h
            have := definitionBody?_length hbody
            exact fits_of_left (by omega)
      next => cases h
    next => cases h

/-! ## Include directives -/

/-- A keyword is more than nothing: the bracket and the exclamation mark come with it. -/
lemma afterKeyword?_length {keyword : String} {cs left : Text}
    (h : afterKeyword? keyword cs = some left) : left.length < cs.length := by
  simp only [afterKeyword?] at h
  split at h
  next hopening =>
    cases h
    have hlen := congrArg List.length hopening
    simp only [lowerAscii, List.length_map, List.length_take, List.length_append] at hlen
    have hmark : "[!".toList.length = 2 := rfl
    simp only [List.length_drop, List.length_append]
    omega
  next => cases h

lemma bracketedTitle?_length {inner : Bool} {cs title left : Text}
    (h : bracketedTitle? inner cs = some (title, left)) : left.length ≤ cs.length := by
  induction cs generalizing inner title left with
  | nil => simp [bracketedTitle?] at h
  | cons c cs ih =>
    have hkeep {next : Bool}
        (h : (bracketedTitle? next cs).map (fun r => (c :: r.1, r.2)) = some (title, left)) :
        left.length ≤ (c :: cs).length := by
      obtain ⟨⟨t, l⟩, hr, heq⟩ := Option.map_eq_some_iff.1 h
      cases heq
      exact (ih hr).trans (Nat.le_succ _)
    simp only [bracketedTitle?] at h
    split at h
    next => cases h
    next =>
      split at h
      next =>
        split at h
        next => cases h
        next => exact hkeep h
      next =>
        split at h
        next =>
          split at h
          next => exact hkeep h
          next =>
            cases h
            exact Nat.le_succ _
        next => exact hkeep h

lemma skipRemark_length (cs : Text) : (skipRemark cs).length ≤ cs.length := by
  simp only [skipRemark]
  have hpad := length_dropWhile_le (p := isPad) cs
  split
  next => exact le_rfl
  next q rest hrest =>
    rw [hrest, List.length_cons] at hpad
    split
    next =>
      split
      next c after hafter =>
        have hquote : (c :: after).length ≤ rest.length := by
          rw [← hafter]
          exact length_dropWhile_le rest
        split
        next =>
          rw [List.length_cons] at hquote
          omega
        next => exact le_rfl
      next => exact le_rfl
    next => exact le_rfl

lemma directiveEnd?_length {cs left : Text} (h : directiveEnd? cs = some left) :
    left.length ≤ cs.length := by
  simp only [directiveEnd?] at h
  have hpad := length_dropWhile_le (p := isPad) (skipRemark cs)
  have hremark := skipRemark_length cs
  split at h
  next rest hrest =>
    cases h
    rw [hrest] at hpad
    simp only [List.length_cons] at hpad
    omega
  next => cases h

lemma angledPath?_length {cs path left : Text} (h : angledPath? cs = some (path, left)) :
    left.length ≤ cs.length := by
  simp only [angledPath?] at h
  split at h
  next rest =>
    split at h
    next after hafter =>
      cases h
      have hdrop := congrArg List.length hafter
      simp only [List.length_drop, List.length_cons] at hdrop
      simp only [List.length_cons]
      omega
    next => cases h
  next => cases h

lemma barePath?_length {cs path left : Text} (h : barePath? cs = some (path, left)) :
    left.length ≤ cs.length := by
  simp only [barePath?] at h
  split at h
  next => cases h
  next =>
    cases h
    rw [List.length_drop]
    exact Nat.sub_le _ _

/-- What is left behind the path of a directive, where what has to follow it leaves no more than it
is given. -/
lemma directivePath?_length {tail : Text → Option Text} {cs path left : Text}
    (htail : ∀ ds rest, tail ds = some rest → rest.length ≤ ds.length)
    (h : directivePath? tail cs = some (path, left)) : left.length ≤ cs.length := by
  have hfinish {read : Option (Text × Text)}
      (hread : ∀ p rest, read = some (p, rest) → rest.length ≤ cs.length)
      (h : read.bind (fun r => ((directiveEnd? r.2).bind tail).map fun left => (r.1, left)) =
        some (path, left)) : left.length ≤ cs.length := by
    obtain ⟨⟨p, rest⟩, hp, hbind⟩ := Option.bind_eq_some_iff.1 h
    obtain ⟨left', hleft, heq⟩ := Option.map_eq_some_iff.1 hbind
    obtain ⟨closed, hclosed, htl⟩ := Option.bind_eq_some_iff.1 hleft
    cases heq
    exact (htail _ _ htl).trans ((directiveEnd?_length hclosed).trans (hread _ _ hp))
  simp only [directivePath?] at h
  rcases Option.or_eq_some_iff.1 h with h | ⟨-, h⟩
  · exact hfinish (fun _ _ => angledPath?_length) h
  · exact hfinish (fun _ _ => barePath?_length) h

lemma directive?_fits {sign : Char} {tail : Text → Option Text} {cs : Text} {m : Found Directive}
    (htail : ∀ ds rest, tail ds = some rest → rest.length ≤ ds.length)
    (h : directive? sign tail cs = some m) : m.Fits cs := by
  simp only [directive?] at h
  split at h
  next => cases h
  next after hafter =>
    have hkeyword := afterKeyword?_length hafter
    have hsign := length_dropFront_le sign after
    split at h
    next rest hrest =>
      have hle : ('[' :: rest).length ≤ after.length := by
        rw [← hrest]
        exact hsign
      split at h
      next title target htitle =>
        have htarget := bracketedTitle?_length htitle
        have hpad := length_dropWhile_le (p := isPad) target
        simp only [List.length_cons] at htarget hle
        split at h
        next => cases h
        next path left hpath =>
          have := directivePath?_length htail hpath
          split at h
          next => cases h
          next =>
            cases h
            exact fits_of_left (by omega)
      next => cases h
    next => cases h

lemma blockDirective?_fits {cs : Text} {m : Found Block.Leaf} (h : blockDirective? cs = some m) :
    m.Fits cs := by
  obtain ⟨d, hd, rfl⟩ := Option.map_eq_some_iff.1 h
  exact (directive?_fits (fun _ _ => lineTail?_length) hd).map

lemma inlineDirective?_fits {cs : Text} {m : Found Inline.Leaf}
    (h : inlineDirective? cs = some m) : m.Fits cs := by
  obtain ⟨d, hd, rfl⟩ := Option.map_eq_some_iff.1 h
  refine (directive?_fits ?_ hd).map
  rintro ds rest ⟨⟩
  exact le_rfl

/-! ## Callouts -/

lemma note?_fits {scope : Scope} {cs : Text} {m : Found Block.Body} (h : note? scope cs = some m) :
    m.Fits cs := by
  simp only [note?] at h
  split at h
  next => cases h
  next =>
    obtain ⟨kind, -, h⟩ := List.exists_of_findSome?_eq_some h
    split at h
    next rest hkeyword =>
      have hrest := afterKeyword?_length hkeyword
      rw [List.length_cons] at hrest
      obtain ⟨left, hleft, rfl⟩ := Option.map_eq_some_iff.1 h
      refine fits_of_left ?_
      split at hleft
      next left' htail =>
        cases hleft
        have := lineTail?_length htail
        omega
      next =>
        split at hleft
        next =>
          cases hleft
          have := length_dropWhile_le (p := isPad) rest
          omega
        next => cases hleft
    next => cases h

lemma division?_fits {scope : Scope} {cs : Text} {m : Found Block.Body}
    (h : division? scope cs = some m) : m.Fits cs := by
  simp only [division?] at h
  split at h
  next => cases h
  next =>
    split at h
    next => cases h
    next after hafter =>
      have hkeyword := afterKeyword?_length hafter
      split at h
      next rest hrest =>
        have hdrop := congrArg List.length hrest
        rw [List.length_drop, List.length_cons] at hdrop
        obtain ⟨left, hleft, rfl⟩ := Option.map_eq_some_iff.1 h
        have := lineTail?_length hleft
        exact fits_of_left (by omega)
      next => cases h

lemma video?_fits {scope : Scope} {cs : Text} {m : Found Block.Body}
    (h : video? scope cs = some m) : m.Fits cs := by
  simp only [video?] at h
  split at h
  next => cases h
  next =>
    split at h
    next => cases h
    next after hafter =>
      have hkeyword := afterKeyword?_length hafter
      split at h
      next => cases h
      next =>
        split at h
        next rest hrest =>
          have hdrop := congrArg List.length hrest
          rw [List.length_drop, List.length_cons] at hdrop
          obtain ⟨left, hleft, rfl⟩ := Option.map_eq_some_iff.1 h
          have := lineTail?_length hleft
          exact fits_of_left (by omega)
        next => cases h

/-! ## Cross references -/

lemma angledXref?_fits {cs : Text} {m : Found Inline.Leaf} (h : angledXref? cs = some m) :
    m.Fits cs := by
  simp only [angledXref?] at h
  split at h
  next =>
    split at h
    next => cases h
    next hclosed =>
      cases h
      obtain ⟨-, hclosed⟩ := not_or.1 hclosed
      obtain ⟨hlt, -⟩ := List.getElem?_eq_some_iff.1 (not_not.1 hclosed)
      constructor
      · exact Nat.succ_pos _
      · show _ + 1 ≤ cs.length
        omega
  next => cases h

lemma shortUid?_length {cs : Text} {m : Found Text} (h : shortUid? cs = some m) :
    m.length ≤ cs.length := by
  simp only [shortUid?] at h
  split at h
  next => cases h
  next c rest =>
    split at h
    next =>
      split at h
      next => cases h
      next hclosed =>
        cases h
        obtain ⟨-, hclosed⟩ := not_or.1 hclosed
        obtain ⟨hlt, -⟩ := List.getElem?_eq_some_iff.1 (not_not.1 hclosed)
        show _ + 2 ≤ rest.length + 1
        omega
    next =>
      split at h
      next =>
        cases h
        have hend := length_dropEndWhile_le (fun d => !isUidEnd d) (rest.takeWhile isUidChar)
        have hrun := length_takeWhile_le (p := isUidChar) rest
        simp only [List.length_cons]
        omega
      next => cases h

lemma shortXref?_fits {cs : Text} {m : Found Inline.Leaf} (h : shortXref? cs = some m) :
    m.Fits cs := by
  simp only [shortXref?] at h
  split at h
  next rest =>
    obtain ⟨uid, huid, rfl⟩ := Option.map_eq_some_iff.1 h
    exact ⟨Nat.succ_pos _, Nat.succ_le_succ (shortUid?_length huid)⟩
  next => cases h

end Docmark
