import Mathlib
import Docmark.Proofs.Container.Content
import Docmark.Proofs.Reading.Kinds
import Docmark.Proofs.Reading.Step
import Docmark.Proofs.Token.Points

/-!
# Reading elsewhere

The same text read from another place gives the same tree at other points.  Nothing is decided by
the point at which a cursor stands: each rule looks at the text that is left, the places in a token
come from the point of the cursor by passing over some of that text, and so do the places from which
nested content is read.  A map of points that goes along with passing over text therefore goes along
with reading, at every level and in both passes.

## Main results

* `BlockConstruct.recognize_carried`, `InlineConstruct.recognize_carried` — one construct.
* `scanBlocks_carried`, `readInlines_carried` — a whole text, in the first pass and in the second.
* `resolveAll_carried` — the completion of pending blocks.
-/

namespace Docmark

/-! ## Maps of points -/

/-- From a place on, a map of points goes along with passing over text. -/
def CarriesFrom (f : Point → Point) (o : Point) : Prop :=
  ∀ cs, f (o.advance cs) = (f o).advance cs

lemma CarriesFrom.advance {f : Point → Point} {o : Point} (h : CarriesFrom f o) (cs : Text) :
    CarriesFrom f (o.advance cs) := by
  intro ds
  rw [← Point.advance_append, h, h, Point.advance_append]

/-- The cursor on the same text at another place. -/
def Cursor.mapPoint (f : Point → Point) (cur : Cursor) : Cursor := { cur with point := f cur.point }

section Cursor

variable {f : Point → Point} {cur : Cursor} (hcur : CarriesFrom f cur.point)

include hcur

lemma CarriesFrom.pointAt (n : Nat) : CarriesFrom f (cur.pointAt n) := hcur.advance _

lemma CarriesFrom.drop (n : Nat) : CarriesFrom f (cur.drop n).point := hcur.advance _

lemma Cursor.pointAt_mapPoint (n : Nat) : (cur.mapPoint f).pointAt n = f (cur.pointAt n) :=
  (hcur _).symm

lemma Cursor.drop_mapPoint (n : Nat) : (cur.mapPoint f).drop n = (cur.drop n).mapPoint f := by
  rw [Cursor.drop, Cursor.mapPoint, Cursor.mapPoint, Cursor.drop]
  simp only [hcur _]

lemma Cursor.spanOf_mapPoint (n : Nat) :
    (cur.mapPoint f).spanOf n = (cur.spanOf n).mapPoints f := by
  rw [Cursor.spanOf, Cursor.drop_mapPoint hcur]
  rfl

end Cursor

/-! ## Choosing a rule -/

/-- An attempt with its token replaced. -/
def Attempt.map {α β : Type} (g : α → β) (a : Attempt α) : Attempt β := ⟨a.token.map g, a.moved⟩

/-- A match with its token replaced. -/
def Match.map {α β : Type} (g : α → β) (m : Match α) : Match β := ⟨m.rule, g m.token, m.length⟩

/-- A run with all points replaced. -/
def Run.mapPoints {α β : Type} (f : Point → Point) (g : α → β) (r : Run α) : Run β :=
  ⟨r.tokens.map g, r.fault.map (Fault.mapPoints f)⟩

section Choice

variable {α β ρ : Type} {f : Point → Point} {g : α → β}

lemma Run.toExcept_mapPoints (r : Run α) :
    (r.mapPoints f g).toExcept = mapOutcome f (List.map g) r.toExcept := by
  obtain ⟨tokens, fault⟩ := r
  cases fault <;> rfl

lemma Run.mapPoints_id (r : Run α) : r.mapPoints id g = ⟨r.tokens.map g, r.fault⟩ := by
  obtain ⟨tokens, fault⟩ := r
  cases fault with
  | none => rfl
  | some e => rw [mapPoints, Option.map_some, e.mapPoints_id]

lemma firstMatch_carried {nameOf : ρ → String} {attempt : ρ → Except Fault (Attempt α)}
    {attempt' : ρ → Except Fault (Attempt β)} {rs : List ρ}
    (h : ∀ r ∈ rs, attempt' r = mapOutcome f (Attempt.map g) (attempt r)) :
    firstMatch nameOf attempt' rs =
      mapOutcome f (Option.map (Match.map g)) (firstMatch nameOf attempt rs) := by
  induction rs with
  | nil => rfl
  | cons r rs ih =>
    rw [firstMatch, firstMatch, h r List.mem_cons_self]
    rcases attempt r with e | ⟨_ | t, moved⟩
    · rfl
    · exact ih fun r' hr' => h r' (List.mem_cons_of_mem _ hr')
    · rfl

/-- Steps that go along with a map of points make a reading that does. -/
lemma readAll_carried {next : Cursor → Except Fault (Option (Match α))}
    {next' : Cursor → Except Fault (Option (Match β))}
    (h : ∀ cur : Cursor, CarriesFrom f cur.point →
      next' (cur.mapPoint f) = mapOutcome f (Option.map (Match.map g)) (next cur))
    (cur : Cursor) (hcur : CarriesFrom f cur.point) :
    readAll next' (cur.mapPoint f) = (readAll next cur).mapPoints f g := by
  fun_induction readAll next cur with
  | case1 cur hrest =>
    rw [readAll, dif_pos (show (cur.mapPoint f).rest = [] from hrest)]
    rfl
  | case2 cur hrest e hnext =>
    rw [readAll, dif_neg (show (cur.mapPoint f).rest ≠ [] from hrest), h cur hcur, hnext]
    rfl
  | case3 cur hrest hnext =>
    rw [readAll, dif_neg (show (cur.mapPoint f).rest ≠ [] from hrest), h cur hcur, hnext]
    rfl
  | case4 cur hrest m hnext hlen =>
    rw [readAll, dif_neg (show (cur.mapPoint f).rest ≠ [] from hrest), h cur hcur, hnext]
    simp only [mapOutcome, Option.map, Match.map, dif_pos hlen]
    rfl
  | case5 cur hrest m hnext hlen rest ih =>
    rw [readAll, dif_neg (show (cur.mapPoint f).rest ≠ [] from hrest), h cur hcur, hnext]
    simp only [mapOutcome, Option.map, Match.map, dif_neg hlen, Cursor.drop_mapPoint hcur,
      ih (hcur.drop _)]
    rfl

end Choice

/-! ## Inlines -/

/-- A reader of inlines that goes along with a map of points. -/
def InlineReader.Carries (read : InlineReader) (f : Point → Point) : Prop :=
  ∀ scope text o, CarriesFrom f o →
    read scope text (f o) = mapOutcome f (List.map (Inline.mapPoints f)) (read scope text o)

section Inlines

variable {f : Point → Point} {nest : Option InlineReader}
  (hnest : ∀ read, nest = some read → read.Carries f) {scope : Scope} {cur : Cursor}
  (hcur : CarriesFrom f cur.point)

include hnest hcur

lemma Label.toInline_carried (l : Label) (d : Destination) (length : Nat) :
    l.toInline d length nest scope (cur.mapPoint f) =
      mapOutcome f (Option.map (Found.map (Inline.Body.mapPoints f)))
        (l.toInline d length nest scope cur) := by
  cases nest with
  | none =>
    simp only [Label.toInline]
    split <;> rfl
  | some read =>
    simp only [Label.toInline]
    split
    next => rfl
    next =>
      rw [Cursor.pointAt_mapPoint hcur, hnest read rfl _ _ _ (hcur.pointAt _)]
      cases read scope.insideLink l.text (cur.pointAt l.start) <;> rfl

lemma linkVia_carried (target : Label → Text → Option (Found Destination)) :
    linkVia target nest scope (cur.mapPoint f) =
      mapOutcome f (Option.map (Found.map (Inline.Body.mapPoints f)))
        (linkVia target nest scope cur) := by
  have hrest : (cur.mapPoint f).rest = cur.rest := rfl
  rw [linkVia, linkVia, hrest]
  split
  next => rfl
  next l hl =>
    split
    next =>
      split
      next => rfl
      next d hd => exact l.toInline_carried hnest hcur d.value _
    next => rfl

lemma framed_carried (frame : Inline.Frame) (size : Nat) (content : Option Text) :
    framed frame size content nest scope (cur.mapPoint f) =
      mapOutcome f (Option.map (Found.map (Inline.Body.mapPoints f)))
        (framed frame size content nest scope cur) := by
  cases nest with
  | none => rfl
  | some read =>
    cases content with
    | none => rfl
    | some content =>
      rw [framed, framed, Cursor.pointAt_mapPoint hcur, hnest read rfl _ _ _ (hcur.pointAt _)]
      cases read scope.descend content (cur.pointAt size) <;> rfl

/-- **One inline construct** is recognised alike at another place. -/
theorem InlineConstruct.recognize_carried (defs : Definitions) (c : InlineConstruct) :
    c.recognize defs nest scope (cur.mapPoint f) =
      mapOutcome f (Option.map (Found.map (Inline.Body.mapPoints f)))
        (c.recognize defs nest scope cur) := by
  have hleaf (found : Option (Found Inline.Leaf)) :
      (.ok (found.map (·.map .leaf)) : Except Fault (Option (Found Inline.Body))) =
        mapOutcome f (Option.map (Found.map (Inline.Body.mapPoints f)))
          (.ok (found.map (·.map .leaf))) := by
    cases found <;> rfl
  cases c with
  | link | refLink | shortLink => exact linkVia_carried hnest hcur _
  | strong | em | del => exact framed_carried hnest hcur _ _ _
  | bareLink =>
    have hrest : (cur.mapPoint f).rest = cur.rest := rfl
    rw [recognize, recognize, hrest]
    split
    · rfl
    · exact hleaf _
  | _ => exact hleaf _

end Inlines

section ReadInlines

variable {rules : RuleSet} (hrules : rules.IsStandard) {f : Point → Point}

include hrules

lemma runInlines_carried {defs : Definitions} {nest : Option InlineReader}
    (hnest : ∀ read, nest = some read → read.Carries f) :
    InlineReader.Carries (runInlines rules defs nest) f := by
  intro scope text o ho
  have hnext (cur : Cursor) (hcur : CarriesFrom f cur.point) :
      nextInline rules defs nest scope.toInline (cur.mapPoint f) =
        mapOutcome f (Option.map (Match.map (Inline.mapPoints f)))
          (nextInline rules defs nest scope.toInline cur) := by
    refine firstMatch_carried fun r hr => ?_
    obtain ⟨c, rfl⟩ := hrules.inline r hr
    rw [InlineRule.attempt, InlineRule.attempt, c.recognize_carried hnest hcur]
    rcases c.recognize defs nest scope.toInline cur with e | _ | m
    · rfl
    · rfl
    · have hspan := Cursor.spanOf_mapPoint hcur m.length
      simp only [mapOutcome, Option.map, Found.map, Attempt.map, hspan]
      rw [← Inline.ofBody_mapPoints]
      rfl
  have hread := readAll_carried hnext (Cursor.ofText text o) ho
  have hmoved : Cursor.ofText text (f o) = (Cursor.ofText text o).mapPoint f := rfl
  rw [runInlines, runInlines, hmoved, hread, Run.toExcept_mapPoints]

/-- **The inlines of a text** are read alike at another place. -/
theorem readInlines_carried (defs : Definitions) : (readInlines rules defs).Carries f := by
  intro scope
  exact inlinesAt_induction (P := fun read => read.Carries f)
    (fun _ hnest => runInlines_carried hrules hnest) scope.budget scope

end ReadInlines

/-! ## Blocks -/

/-- A reader of blocks that goes along with a map of points. -/
def BlockReader.Carries (read : BlockReader) (f : Point → Point) : Prop :=
  ∀ scope text o, CarriesFrom f o →
    read scope text (f o) = mapOutcome f (List.map (Block.mapPoints f)) (read scope text o)

namespace Block

variable (f : Point → Point)

lemma isCallout_mapPoints (b : Block) : isCallout (b.mapPoints f) = isCallout b := by
  cases b with
  | leaf h c => rw [mapPoints_leaf]; cases c <;> rfl
  | node h frame bs => rw [mapPoints_node]; cases frame <;> rfl

lemma appendToCallout?_mapPoints (callout b : Block) :
    appendToCallout? (callout.mapPoints f) (b.mapPoints f) =
      (appendToCallout? callout b).map (mapPoints f) := by
  cases callout with
  | leaf h c => rw [mapPoints_leaf]; rfl
  | node h frame bs =>
    rw [mapPoints_node]
    cases frame <;>
      simp [appendToCallout?, mapPoints_node, span_mapPoints, Head.mapPoints, Span.mapPoints]

end Block

section Container

variable {f : Point → Point} {read : BlockReader} (hread : read.Carries f) {scope : Scope}
  {cur : Cursor} (hcur : CarriesFrom f cur.point)

include hread hcur

lemma blockquote?_carried :
    blockquote? read scope (cur.mapPoint f) =
      mapOutcome f (Option.map (Found.map (Block.Body.mapPoints f)))
        (blockquote? read scope cur) := by
  have hrest : (cur.mapPoint f).rest = cur.rest := rfl
  have hpoint : (cur.mapPoint f).point = f cur.point := rfl
  simp only [blockquote?, hrest, hpoint]
  split
  next => rfl
  next =>
    rw [hread _ _ _ hcur]
    cases read (scope.nested Scope.isBlockQuote) _ cur.point with
    | error e => rfl
    | ok bs =>
      have hgroups := groupCallouts_map (Block.isCallout_mapPoints f)
        (Block.appendToCallout?_mapPoints f) bs
      simp only [mapOutcome, Option.map, Found.map, Block.Body.mapPoints, hgroups]

lemma readItem_carried (loose : Bool) (item : ItemScan) :
    readItem read scope (cur.mapPoint f) loose item =
      mapOutcome f (Block.mapPoints f) (readItem read scope cur loose item) := by
  simp only [readItem]
  rw [Cursor.pointAt_mapPoint hcur, Cursor.pointAt_mapPoint hcur, hread _ _ _ (hcur.pointAt _)]
  cases read (scope.nested Scope.isInList) _ _ with
  | error e => rfl
  | ok bs =>
    simp only [mapOutcome, Block.mapPoints_node]
    rfl

lemma list?_carried :
    list? read scope (cur.mapPoint f) =
      mapOutcome f (Option.map (Found.map (Block.Body.mapPoints f))) (list? read scope cur) := by
  have hrest : (cur.mapPoint f).rest = cur.rest := rfl
  simp only [list?, hrest]
  split
  next => rfl
  next marker scan hscan =>
    have hitems : scan.items.mapM (readItem read scope (cur.mapPoint f) scan.loose) =
        mapOutcome f (List.map (Block.mapPoints f))
          (scan.items.mapM (readItem read scope cur scan.loose)) := by
      rw [funext (readItem_carried hread hcur scan.loose), mapM_mapOutcome]
    rw [hitems]
    cases scan.items.mapM (readItem read scope cur scan.loose) <;> rfl

end Container

section Leaf

variable {f : Point → Point} {scope : Scope} {cur : Cursor}

lemma heading?_carried (hcur : CarriesFrom f cur.point) (style : HeadingStyle)
    (level : Option Nat) :
    heading? style level scope (cur.mapPoint f) =
      (heading? style level scope cur).map (Found.map (Block.Leaf.mapPoints f)) := by
  have hrest : (cur.mapPoint f).rest = cur.rest := rfl
  simp only [heading?, hrest]
  split
  next => rfl
  next h hline =>
    split
    next => rfl
    next =>
      rw [Cursor.pointAt_mapPoint hcur]
      rfl

lemma underlinedHeading?_carried :
    underlinedHeading? scope (cur.mapPoint f) =
      (underlinedHeading? scope cur).map (Found.map (Block.Leaf.mapPoints f)) := by
  have hrest : (cur.mapPoint f).rest = cur.rest := rfl
  simp only [underlinedHeading?, hrest]
  split
  next => rfl
  next =>
    split
    next => rfl
    next => split <;> rfl

lemma table?_carried :
    table? scope (cur.mapPoint f) =
      (table? scope cur).map (Found.map (Block.Leaf.mapPoints f)) := by
  have hrest : (cur.mapPoint f).rest = cur.rest := rfl
  simp only [table?, hrest]
  split
  next => split <;> rfl
  next => rfl

lemma paragraph?_carried :
    paragraph? scope (cur.mapPoint f) =
      (paragraph? scope cur).map (Found.map (Block.Leaf.mapPoints f)) := by
  have hrest : (cur.mapPoint f).rest = cur.rest := rfl
  simp only [paragraph?, hrest]
  split <;> rfl

end Leaf

/-- **One block construct** is recognised alike at another place. -/
theorem BlockConstruct.recognize_carried {f : Point → Point} {nest : Option BlockReader}
    (hnest : ∀ read, nest = some read → read.Carries f) {scope : Scope} {cur : Cursor}
    (hcur : CarriesFrom f cur.point) (c : BlockConstruct) :
    c.recognize nest scope (cur.mapPoint f) =
      mapOutcome f (Option.map (Found.map (Block.Body.mapPoints f)))
        (c.recognize nest scope cur) := by
  have hleaf (found : Option (Found Block.Leaf)) :
      (.ok ((found.map (Found.map (Block.Leaf.mapPoints f))).map (·.map .leaf)) :
          Except Fault (Option (Found Block.Body))) =
        mapOutcome f (Option.map (Found.map (Block.Body.mapPoints f)))
          (.ok (found.map (·.map .leaf))) := by
    cases found <;> rfl
  -- the other constructs see the text that is left only, and make nothing with points
  have hplain {r : Option (Found Block.Body)} (hr : c.recognize nest scope cur = .ok r)
      (hmade : c.made ∉ [.pending, .blockquote, .list]) :
      .ok r = mapOutcome f (Option.map (Found.map (Block.Body.mapPoints f))) (.ok r) := by
    cases r with
    | none => rfl
    | some m =>
      have hvalue : m.value.mapPoints f = m.value := by
        obtain ⟨frame, hvalue⟩ | ⟨l, hvalue, hl⟩ := recognize_plain hr hmade
        · rw [hvalue]
          rfl
        · rw [hvalue]
          cases l with
          | heading | paragraph | text | table | pending => simp [Block.Leaf.kind] at hl
          | _ => rfl
      simp only [mapOutcome, Option.map, Found.map, hvalue]
  cases c with
  | blockquote =>
    cases nest with
    | none => rfl
    | some read => exact blockquote?_carried (hnest read rfl) hcur
  | list =>
    cases nest with
    | none => rfl
    | some read => exact list?_carried (hnest read rfl) hcur
  | heading name style level => simp only [recognize, heading?_carried hcur, hleaf]
  | underlinedHeading => simp only [recognize, underlinedHeading?_carried, hleaf]
  | table => simp only [recognize, table?_carried, hleaf]
  | paragraph => simp only [recognize, paragraph?_carried, hleaf]
  | text => rfl
  | _ => exact hplain rfl (by simp [made])

section Scan

variable {rules : RuleSet} (hrules : rules.IsStandard) {f : Point → Point}

include hrules

lemma runBlocks_carried {nest : Option BlockReader}
    (hnest : ∀ read, nest = some read → read.Carries f) (scope : Scope) (text : Text) {o : Point}
    (ho : CarriesFrom f o) :
    runBlocks rules nest scope text (f o) =
      (runBlocks rules nest scope text o).mapPoints f (Block.mapPoints f) := by
  have hnext (cur : Cursor) (hcur : CarriesFrom f cur.point) :
      nextBlock rules nest scope (cur.mapPoint f) =
        mapOutcome f (Option.map (Match.map (Block.mapPoints f)))
          (nextBlock rules nest scope cur) := by
    refine firstMatch_carried fun r hr => ?_
    obtain ⟨c, rfl⟩ := hrules.block r hr
    rw [BlockRule.attempt, BlockRule.attempt, c.recognize_carried hnest hcur]
    rcases c.recognize nest scope cur with e | _ | m
    · rfl
    · rfl
    · have hspan := Cursor.spanOf_mapPoint hcur m.length
      simp only [mapOutcome, Option.map, Found.map, Attempt.map, hspan]
      rw [← Block.ofBody_mapPoints]
      rfl
  exact readAll_carried hnext (Cursor.ofText text o) ho

lemma nestedBlocks_carries {scope : Scope} {read : BlockReader}
    (h : nestedBlocks rules scope = some read) : read.Carries f := by
  refine nestedBlocks_induction (P := fun read => read.Carries f) (fun nest hnest => ?_) h
  intro scope text o ho
  simp only [runBlocks_carried hrules hnest scope text ho, Run.toExcept_mapPoints]

/-- **The first pass over a text** comes to the same at another place. -/
theorem scanBlocks_carried (scope : Scope) (text : Text) {o : Point} (ho : CarriesFrom f o) :
    scanBlocks rules scope text (f o) =
      (scanBlocks rules scope text o).mapPoints f (Block.mapPoints f) :=
  runBlocks_carried hrules (fun _ => nestedBlocks_carries hrules) scope text ho

end Scan

/-! ## The second pass -/

section Resolve

variable {f : Point → Point}

lemma addBlocks_mapPoints (f : Point → Point) (defs : Definitions) (bs : List Block) :
    defs.addBlocks (bs.map (Block.mapPoints f)) = defs.addBlocks bs := by
  rw [Definitions.addBlocks, Definitions.addBlocks, List.foldl_map]
  congr 1
  funext defs b
  cases b with
  | leaf h c => rw [Block.mapPoints_leaf]; cases c <;> rfl
  | node h frame bs => rw [Block.mapPoints_node]

/-- A pending block is completed alike at another place. -/
lemma Pending.complete_carried {read : InlineReader} (hread : read.Carries f) (rule : String)
    {p : Pending} (hp : CarriesFrom f p.origin) :
    Pending.complete read rule { p with origin := f p.origin } =
      mapOutcome f (Block.Leaf.mapPoints f) (p.complete read rule) := by
  have hcell (text : Text) := hread p.scope text p.origin hp
  obtain ⟨form, source, origin, scope⟩ := p
  cases form with
  | heading | paragraph | text =>
    simp only [complete, hcell]
    refine mapOutcome_map f _ (fun _ => ?_) _
    rfl
  | table align header rows =>
    simp only [complete, hcell, mapM_mapOutcome]
    refine mapOutcome_bind f _ (fun header => ?_) _
    refine mapOutcome_bind f _ (fun rows => ?_) _
    rfl
  | unfinished => rfl

/-- The places from which the pending blocks of a tree are to be read are among those from which a
map of points goes along. -/
def Block.PendingCarried (f : Point → Point) (b : Block) : Prop :=
  ∀ h p, Block.leaf h (.pending p) ∈ b.nodes → CarriesFrom f p.origin

lemma resolveAll_of_resolve {read : InlineReader} {bs : List Block}
    (h : ∀ b ∈ bs,
      (b.mapPoints f).resolve read = mapOutcome f (Block.mapPoints f) (b.resolve read)) :
    Block.resolveAll read (bs.map (Block.mapPoints f)) =
      mapOutcome f (List.map (Block.mapPoints f)) (Block.resolveAll read bs) := by
  induction bs with
  | nil => rfl
  | cons b bs ih =>
    rw [List.map_cons, Block.resolveAll, Block.resolveAll, h b List.mem_cons_self,
      ih fun d hd => h d (List.mem_cons_of_mem _ hd)]
    cases b.resolve read with
    | error e => rfl
    | ok b => cases Block.resolveAll read bs <;> rfl

/-- **The second pass** comes to the same at another place. -/
theorem Block.resolve_carried {read : InlineReader} (hread : read.Carries f) {b : Block}
    (hb : b.PendingCarried f) :
    (b.mapPoints f).resolve read = mapOutcome f (Block.mapPoints f) (b.resolve read) := by
  induction b using Block.induction with
  | leaf h c =>
    have hleaf (c : Leaf) : Block.leaf (h.mapPoints f) (c.mapPoints f) =
        (Block.leaf h c).mapPoints f := (mapPoints_leaf f h c).symm
    rw [mapPoints_leaf]
    cases c with
    | pending p =>
      have hp : CarriesFrom f p.origin := hb h p (by simp)
      have hcomplete := Pending.complete_carried hread h.rule hp
      simp only [Leaf.mapPoints, resolve]
      rw [show (h.mapPoints f).rule = h.rule from rfl, hcomplete]
      exact mapOutcome_map _ _ hleaf _
    | _ => exact congrArg Except.ok (hleaf _)
  | node h frame bs ih =>
    have hbs : ∀ d ∈ bs, d.PendingCarried f := fun d hd h' p hp =>
      hb h' p (by rw [nodes_node]; exact List.mem_cons_of_mem _ (mem_nodesAll.2 ⟨d, hd, hp⟩))
    rw [mapPoints_node, resolve, resolve,
      resolveAll_of_resolve fun d hd => ih d hd (hbs d hd)]
    exact mapOutcome_map _ _ (fun ds => (mapPoints_node f h frame ds).symm) _

end Resolve

end Docmark
