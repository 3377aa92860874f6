import Mathlib
import Docmark.Proofs.Reading.Agreement
import Docmark.Proofs.Reading.Callouts
import Docmark.Proofs.Reading.Carried

/-!
# Included files are read as documents

Included files are read in a scope that says so.  No construct of the language asks for this
setting, so an included file is read as a document of its own: all that differs in between are the
scopes of the blocks that the first pass leaves pending, and the second pass makes the same of them.

## Main results

* `read_including` — a text is read alike with and without the setting.
-/

namespace Docmark

/-! ## Settings in any order -/

namespace Settings

variable {key k : String} {v w : Setting} {s : Settings}

lemma insert_cons_of_lt (h : key < k) :
    insert key v ((k, w) :: s) = (key, v) :: (k, w) :: s := by
  rw [insert, if_neg h.ne, if_pos h]

lemma insert_cons_self : insert key v ((key, w) :: s) = (key, v) :: s := by
  rw [insert, if_pos rfl]

lemma insert_cons_of_gt (h : k < key) :
    insert key v ((k, w) :: s) = (k, w) :: insert key v s := by
  rw [insert, if_neg h.ne', if_neg h.not_gt]

/-- Two settings may be given in either order. -/
lemma insert_comm {key key' : String} (hne : key ≠ key') (v v' : Setting) (s : Settings) :
    insert key v (insert key' v' s) = insert key' v' (insert key v s) := by
  -- the settings are interchangeable, so let `key` be the first one
  wlog hlt : key < key' generalizing key key' v v' with hwlog
  · exact (hwlog hne.symm v' v (lt_of_le_of_ne (not_lt.1 hlt) hne.symm)).symm
  induction s with
  | nil =>
    simp only [insert]
    rw [if_neg hne, if_pos hlt, if_neg hne.symm, if_neg hlt.not_gt]
  | cons p s ih =>
    obtain ⟨k, w⟩ := p
    rcases lt_trichotomy key k with h | rfl | h
    · rw [insert_cons_of_lt h, insert_cons_of_gt hlt]
      rcases lt_trichotomy key' k with h' | rfl | h'
      · rw [insert_cons_of_lt h', insert_cons_of_lt hlt]
      · rw [insert_cons_self, insert_cons_of_lt hlt]
      · rw [insert_cons_of_gt h', insert_cons_of_lt h]
    · rw [insert_cons_of_gt hlt, insert_cons_self, insert_cons_self, insert_cons_of_gt hlt]
    · have h' : k < key' := h.trans hlt
      rw [insert_cons_of_gt h', insert_cons_of_gt h, insert_cons_of_gt h, insert_cons_of_gt h', ih]

end Settings

/-! ## The setting -/

namespace Scope

/-- The scope with the setting for the content of an included file. -/
def including (s : Scope) : Scope := s.set isInclude (.flag true)

lemma including_set {key : String} (hkey : key ≠ isInclude) (v : Setting) (s : Scope) :
    s.including.set key v = (s.set key v).including := by
  simp only [including, set]
  rw [Settings.insert_comm hkey]

lemma has_including {key : String} (hkey : key ≠ isInclude) (s : Scope) :
    s.including.has key = s.has key := by
  simp only [has, get?, including, set]
  rw [Settings.lookup_insert_of_ne hkey]

lemma has_isInLink_including (s : Scope) : s.including.has isInLink = s.has isInLink :=
  has_including (by decide) s

lemma has_isInList_including (s : Scope) : s.including.has isInList = s.has isInList :=
  has_including (by decide) s

lemma has_isBlockQuote_including (s : Scope) :
    s.including.has isBlockQuote = s.has isBlockQuote := has_including (by decide) s

lemma has_isTop_including (s : Scope) : s.including.has isTop = s.has isTop :=
  has_including (by decide) s

lemma including_nested {key : String} (hkey : key ≠ isInclude) (s : Scope) :
    s.including.nested key = (s.nested key).including := by
  rw [nested, including_set (by decide), including_set hkey]
  rfl

lemma including_toInline (s : Scope) : s.including.toInline = s.toInline.including := by
  rw [toInline, including_set (by decide)]
  rfl

lemma including_insideLink (s : Scope) : s.including.insideLink = s.insideLink.including := by
  rw [insideLink, including_set (by decide)]
  rfl

end Scope

/-! ## Inlines -/

/-- A reader of inlines that does not ask whether a file is included. -/
def InlineReader.IgnoresInclusion (read : InlineReader) : Prop :=
  ∀ s text origin, read s.including text origin = read s text origin

lemma Label.toInline_including {read : InlineReader} (h : read.IgnoresInclusion) (l : Label)
    (d : Destination) (length : ℕ) (s : Scope) (cur : Cursor) :
    l.toInline d length (some read) s.including cur = l.toInline d length (some read) s cur := by
  simp only [Label.toInline, Scope.including_insideLink, h _ _ _]

lemma linkVia_including {target : Label → Text → Option (Found Destination)}
    {nest : Option InlineReader} (h : ∀ read, nest = some read → read.IgnoresInclusion) (s : Scope)
    (cur : Cursor) : linkVia target nest s.including cur = linkVia target nest s cur := by
  have hallowed (l : Label) : l.allowed s.including nest = l.allowed s nest := by
    rw [Label.allowed, Label.allowed, Scope.has_including (by decide)]
  have hinline (l : Label) (d : Destination) (length : ℕ) :
      l.toInline d length nest s.including cur = l.toInline d length nest s cur := by
    cases nest with
    | none => rfl
    | some read => exact l.toInline_including (h read rfl) d length s cur
  simp only [linkVia, hallowed, hinline]

lemma framed_including {frame : Inline.Frame} {size : ℕ} {content : Option Text}
    {nest : Option InlineReader} (h : ∀ read, nest = some read → read.IgnoresInclusion) (s : Scope)
    (cur : Cursor) :
    framed frame size content nest s.including cur = framed frame size content nest s cur := by
  cases nest with
  | none => rfl
  | some read =>
    have hdescend (text : Text) (origin : Point) :
        read s.including.descend text origin = read s.descend text origin :=
      h read rfl s.descend text origin
    cases content with
    | none => rfl
    | some content => simp only [framed, hdescend]

lemma InlineConstruct.recognize_including {nest : Option InlineReader}
    (h : ∀ read, nest = some read → read.IgnoresInclusion) (defs : Definitions) (s : Scope)
    (cur : Cursor) (c : InlineConstruct) :
    c.recognize defs nest s.including cur = c.recognize defs nest s cur := by
  cases c with
  | link | refLink | shortLink => exact linkVia_including h s cur
  | strong | em | del => exact framed_including h s cur
  | bareLink => simp only [recognize, Scope.has_isInLink_including]
  | _ => rfl

lemma firstMatch_congr {ρ α : Type} {nameOf : ρ → String}
    {attempt attempt' : ρ → Except Fault (Attempt α)} {rs : List ρ}
    (h : ∀ r ∈ rs, attempt r = attempt' r) :
    firstMatch nameOf attempt rs = firstMatch nameOf attempt' rs := by
  have hchoice : ChooseAlike nameOf attempt attempt' (rs ++ []) (rs ++ []) := .prepend h .nil
  rw [List.append_nil] at hchoice
  exact hchoice.firstMatch_eq

section Read

variable {rules : RuleSet} (hrules : rules.IsStandard)

include hrules

/-- Inlines are read alike in included files, at every level. -/
lemma inlinesAt_including (defs : Definitions) (n : ℕ) :
    (inlinesAt rules defs n).IgnoresInclusion := by
  refine inlinesAt_induction (P := InlineReader.IgnoresInclusion) (fun nest hnest => ?_) n
  intro s text origin
  have hnext : nextInline rules defs nest s.including.toInline =
      nextInline rules defs nest s.toInline := by
    funext cur
    rw [Scope.including_toInline, nextInline, nextInline]
    refine firstMatch_congr fun r hr => ?_
    obtain ⟨c, rfl⟩ := hrules.inline r hr
    simp only [InlineRule.attempt, c.recognize_including hnest]
  rw [runInlines, runInlines, hnext]

end Read

/-! ## Blocks -/

/-- The leaf with the setting in its scope, if it is pending. -/
def Block.Leaf.including : Block.Leaf → Block.Leaf
  | .pending p => .pending { p with scope := p.scope.including }
  | c => c

mutual

/-- The block with the setting in the scopes of all pending blocks in it. -/
def Block.including : Block → Block
  | .leaf h c => .leaf h c.including
  | .node h f bs => .node h f (Block.includingAll bs)

/-- The blocks with the setting in the scopes of all pending blocks in them. -/
def Block.includingAll : List Block → List Block
  | [] => []
  | b :: bs => b.including :: Block.includingAll bs

end

namespace Block

lemma includingAll_eq_map (bs : List Block) : includingAll bs = bs.map including := by
  induction bs with
  | nil => rw [includingAll, List.map_nil]
  | cons b bs ih => rw [includingAll, ih, List.map_cons]

lemma including_leaf (h : Head) (c : Leaf) : (Block.leaf h c).including = .leaf h c.including := by
  rw [including]

lemma including_node (h : Head) (f : Frame) (bs : List Block) :
    (Block.node h f bs).including = .node h f (bs.map including) := by
  rw [including, includingAll_eq_map]

/-- The body with the setting in the scopes of all pending blocks in it. -/
def Body.including : Body → Body
  | .leaf c => .leaf c.including
  | .node f bs => .node f (bs.map Block.including)

lemma ofBody_including (h : Head) (m : Body) : ofBody h m.including = (ofBody h m).including := by
  cases m with
  | leaf c => rw [ofBody, including_leaf]; rfl
  | node f bs => rw [ofBody, including_node]; rfl

lemma span_including (b : Block) : b.including.span = b.span := by
  cases b with
  | leaf h c => rw [including_leaf]; rfl
  | node h f bs => rw [including_node]; rfl

lemma isCallout_including (b : Block) : isCallout b.including = isCallout b := by
  cases b with
  | leaf h c => rw [including_leaf]; cases c <;> rfl
  | node h f bs => rw [including_node]; cases f <;> rfl

lemma appendToCallout?_including (callout b : Block) :
    appendToCallout? callout.including b.including =
      (appendToCallout? callout b).map including := by
  cases callout with
  | leaf h c => rw [including_leaf]; rfl
  | node h f bs =>
    rw [including_node]
    cases f <;> simp [appendToCallout?, including_node, span_including]

end Block

/-- A reader of blocks that asks for the setting of included files only to hand it on. -/
def BlockReader.HandsInclusion (read : BlockReader) : Prop :=
  ∀ s text origin, read s.including text origin =
    (read s text origin).map (List.map Block.including)

section Construct

variable {read : BlockReader} (h : read.HandsInclusion) (s : Scope) (cur : Cursor)

include h

lemma blockquote?_including :
    blockquote? read s.including cur =
      (blockquote? read s cur).map (Option.map (Found.map Block.Body.including)) := by
  simp only [blockquote?]
  split
  next => rfl
  next =>
    rw [Scope.including_nested (by decide), h]
    cases read (s.nested Scope.isBlockQuote) _ cur.point with
    | error e => rfl
    | ok bs =>
      have hgroups := groupCallouts_map Block.isCallout_including
        Block.appendToCallout?_including bs
      simp only [Except.map, Option.map, Found.map, Block.Body.including, hgroups]

lemma readItem_including (loose : Bool) (item : ItemScan) :
    readItem read s.including cur loose item =
      (readItem read s cur loose item).map Block.including := by
  simp only [readItem]
  rw [Scope.including_nested (by decide), h]
  cases read (s.nested Scope.isInList) _ _ with
  | error e => rfl
  | ok bs => simp only [Except.map, Block.including_node]

lemma list?_including :
    list? read s.including cur =
      (list? read s cur).map (Option.map (Found.map Block.Body.including)) := by
  simp only [list?]
  split
  next => rfl
  next marker scan hscan =>
    have hitems : scan.items.mapM (readItem read s.including cur scan.loose) =
        (scan.items.mapM (readItem read s cur scan.loose)).map (List.map Block.including) := by
      rw [← mapOutcome_id, ← mapM_mapOutcome]
      refine mapM_congr fun item _ => ?_
      rw [mapOutcome_id, readItem_including h]
    rw [hitems]
    cases scan.items.mapM (readItem read s cur scan.loose) with
    | error e => rfl
    | ok items => rfl

end Construct

/-- What a construct reports in an included file, given what it reports elsewhere. -/
def Found.including : Found Block.Leaf → Found Block.Leaf := Found.map Block.Leaf.including

section Leaf

variable (s : Scope) (cur : Cursor)

lemma heading?_including (style : HeadingStyle) (level : Option ℕ) :
    heading? style level s.including cur = (heading? style level s cur).map Found.including := by
  simp only [heading?]
  split
  next => rfl
  next => split <;> rfl

lemma underlinedHeading?_including :
    underlinedHeading? s.including cur = (underlinedHeading? s cur).map Found.including := by
  simp only [underlinedHeading?]
  split
  next => rfl
  next =>
    split
    next => rfl
    next => split <;> rfl

lemma table?_including : table? s.including cur = (table? s cur).map Found.including := by
  simp only [table?]
  split
  next => split <;> rfl
  next => rfl

lemma paragraph?_including :
    paragraph? s.including cur = (paragraph? s cur).map Found.including := by
  simp only [paragraph?, Scope.has_isInList_including]
  split <;> rfl

lemma anyText_including : anyText s.including cur = (anyText s cur).including := by
  simp only [anyText, Scope.has_isInList_including]
  rfl

end Leaf

lemma BlockConstruct.recognize_including {nest : Option BlockReader}
    (h : ∀ read, nest = some read → read.HandsInclusion) (s : Scope) (cur : Cursor)
    (c : BlockConstruct) :
    c.recognize nest s.including cur =
      (c.recognize nest s cur).map (Option.map (Found.map Block.Body.including)) := by
  have hleaf (found : Option (Found Block.Leaf)) :
      (.ok ((found.map Found.including).map (·.map .leaf)) :
          Except Fault (Option (Found Block.Body))) =
        (Except.ok (found.map (·.map .leaf))).map
          (Option.map (Found.map Block.Body.including)) := by
    cases found <;> rfl
  -- what is not pending has no scope
  have hplain {r : Except Fault (Option (Found Block.Body))} (hr : c.recognize nest s cur = r)
      (hmade : c.made ∉ [.pending, .blockquote, .list]) :
      r = r.map (Option.map (Found.map Block.Body.including)) := by
    rcases r with e | _ | m
    · rfl
    · rfl
    · have hvalue : m.value.including = m.value := by
        obtain ⟨f, hvalue⟩ | ⟨l, hvalue, hl⟩ := recognize_plain hr hmade
        · rw [hvalue]
          rfl
        · rw [hvalue]
          cases l with
          | pending => simp [Block.Leaf.kind] at hl
          | _ => rfl
      simp only [Except.map, Option.map, Found.map, hvalue]
  cases c with
  | blockquote =>
    cases nest with
    | none => rfl
    | some read => exact blockquote?_including (h read rfl) s cur
  | list =>
    cases nest with
    | none => rfl
    | some read => exact list?_including (h read rfl) s cur
  | heading name style level => simp only [recognize, heading?_including, hleaf]
  | underlinedHeading => simp only [recognize, underlinedHeading?_including, hleaf]
  | table => simp only [recognize, table?_including, hleaf]
  | paragraph => simp only [recognize, paragraph?_including, hleaf]
  | text => simp only [recognize, anyText_including]; rfl
  | definition =>
    have hsame : linkDefinition? s.including cur.rest = linkDefinition? s cur.rest := by
      simp only [linkDefinition?, Scope.has_isTop_including]
    rw [recognize, hsame]
    exact hplain rfl (by simp [made])
  | note =>
    have hsame : note? s.including cur.rest = note? s cur.rest := by
      simp only [note?, Scope.has_isBlockQuote_including]
    rw [recognize, hsame]
    exact hplain rfl (by simp [made])
  | division =>
    have hsame : division? s.including cur.rest = division? s cur.rest := by
      simp only [division?, Scope.has_isBlockQuote_including]
    rw [recognize, hsame]
    exact hplain rfl (by simp [made])
  | video =>
    have hsame : video? s.including cur.rest = video? s cur.rest := by
      simp only [video?, Scope.has_isBlockQuote_including]
    rw [recognize, hsame]
    exact hplain rfl (by simp [made])
  | _ => exact hplain rfl (by simp [made])

/-! ## The two passes -/

section Read

variable {rules : RuleSet} (hrules : rules.IsStandard)

include hrules

lemma nextBlock_including {nest : Option BlockReader}
    (h : ∀ read, nest = some read → read.HandsInclusion) (s : Scope) (cur : Cursor) :
    nextBlock rules nest s.including cur =
      (nextBlock rules nest s cur).map (Option.map (Match.map Block.including)) := by
  rw [← mapOutcome_id]
  refine firstMatch_carried fun r hr => ?_
  obtain ⟨c, rfl⟩ := hrules.block r hr
  simp only [BlockRule.attempt, c.recognize_including h, mapOutcome_id]
  rcases c.recognize nest s cur with e | _ | m
  · rfl
  · rfl
  · simp only [Except.map, Option.map, Found.map, Attempt.map, Block.ofBody_including]

lemma runBlocks_including {nest : Option BlockReader}
    (h : ∀ read, nest = some read → read.HandsInclusion) (s : Scope) (text : Text)
    (origin : Point) :
    runBlocks rules nest s.including text origin =
      ⟨(runBlocks rules nest s text origin).tokens.map Block.including,
        (runBlocks rules nest s text origin).fault⟩ := by
  have hnext (cur : Cursor) : nextBlock rules nest s.including (cur.mapPoint id) =
      mapOutcome id (Option.map (Match.map Block.including)) (nextBlock rules nest s cur) := by
    rw [mapOutcome_id]
    exact nextBlock_including hrules h s cur
  rw [← Run.mapPoints_id]
  exact readAll_carried (fun cur _ => hnext cur) (Cursor.ofText text origin) fun _ => rfl

lemma handsInclusion_run {nest : Option BlockReader}
    (h : ∀ read, nest = some read → read.HandsInclusion) :
    BlockReader.HandsInclusion
      fun s text origin => (runBlocks rules nest s text origin).toExcept := by
  intro s text origin
  simp only [runBlocks_including hrules h, Run.toExcept]
  split <;> rfl

/-- The first pass over an included file. -/
lemma scanBlocks_including (s : Scope) (text : Text) (origin : Point) :
    scanBlocks rules s.including text origin =
      ⟨(scanBlocks rules s text origin).tokens.map Block.including,
        (scanBlocks rules s text origin).fault⟩ := by
  have hnest : nestedBlocks rules s.including = nestedBlocks rules s := rfl
  rw [scanBlocks, scanBlocks, hnest]
  refine runBlocks_including hrules (fun read hread => ?_) s text origin
  exact nestedBlocks_induction (P := BlockReader.HandsInclusion)
    (fun nest h => handsInclusion_run hrules h) hread

end Read

lemma addBlocks_including (defs : Definitions) (bs : List Block) :
    defs.addBlocks (bs.map Block.including) = defs.addBlocks bs := by
  rw [Definitions.addBlocks, Definitions.addBlocks, List.foldl_map]
  congr 1
  funext defs b
  cases b with
  | leaf h c => rw [Block.including_leaf]; cases c <;> rfl
  | node h f bs => rw [Block.including_node]

lemma resolveAll_including {read : InlineReader} {bs : List Block}
    (h : ∀ b ∈ bs, b.including.resolve read = b.resolve read) :
    Block.resolveAll read (bs.map Block.including) = Block.resolveAll read bs := by
  induction bs with
  | nil => rfl
  | cons b bs ih =>
    rw [List.map_cons, Block.resolveAll, Block.resolveAll, h b List.mem_cons_self,
      ih fun d hd => h d (List.mem_cons_of_mem _ hd)]

/-- The second pass does not ask for the setting either. -/
lemma resolve_including {read : InlineReader} (h : read.IgnoresInclusion) (b : Block) :
    b.including.resolve read = b.resolve read := by
  induction b using Block.induction with
  | leaf hd c =>
    rw [Block.including_leaf]
    cases c with
    | pending p =>
      obtain ⟨form, source, origin, s⟩ := p
      have hcomplete : Pending.complete read hd.rule ⟨form, source, origin, s.including⟩ =
          Pending.complete read hd.rule ⟨form, source, origin, s⟩ := by
        simp only [Pending.complete, h s]
      simp only [Block.Leaf.including, Block.resolve, hcomplete]
    | _ => rfl
  | node hd f bs ih =>
    rw [Block.including_node, Block.resolve, Block.resolve, resolveAll_including ih]

/-- **An included file is read as a document.**  The setting that tells that a file is included makes
no difference to its tree. -/
theorem read_including {rules : RuleSet} (hrules : rules.IsStandard) (s : Scope) (text : Text) :
    read rules s.including text = read rules s text := by
  have hread (defs : Definitions) : (readInlines rules defs).IgnoresInclusion :=
    fun s => inlinesAt_including hrules defs s.budget s
  simp only [read, readWith, scanBlocks_including hrules, addBlocks_including]
  have hall (defs : Definitions) (bs : List Block) :
      Block.resolveAll (readInlines rules defs) (bs.map Block.including) =
        Block.resolveAll (readInlines rules defs) bs :=
    resolveAll_including fun b _ => resolve_including (hread defs) b
  simp only [Run.toExcept]
  split
  · simp only [bind, Except.bind, hall]
  · rfl

end Docmark
