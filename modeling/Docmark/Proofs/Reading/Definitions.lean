import Mathlib
import Docmark.Proofs.Container.Content
import Docmark.Proofs.Reading.Places
import Docmark.Proofs.Reading.Total

/-!
# Link definitions

The definitions of a document are settled by the first pass: a label has the destination of the
first outermost block that defines it, and nothing inside a quote or a list defines one.  The second
pass reads the definitions and adds none, so the pending blocks of a document may be completed in
any order, and every reference in the tree carries the definition of its key, wherever it stands.

## Main results

* `Definitions.find?_addBlocks` — what a label stands for behind some blocks.
* `scanBlocks_definition` — where the definitions of a text come from.
* `Block.CompletesOne.resolveAll_eq` — completing one pending block changes nothing about the rest.
* `definitions_settled` — all of this for the documents of a dialect.
-/

namespace Docmark

/-! ## Labels -/

/-- The label that a block defines, and its destination. -/
def Block.definition? : Block → Option (Text × Destination)
  | .leaf _ (.definition label href title) => some (label, ⟨href, title⟩)
  | _ => none

/-- The destination that a block gives to a label, if that is the label it defines. -/
def Block.destinationOf? (label : Text) (b : Block) : Option Destination :=
  b.definition?.bind fun p => if normalizeLabel p.1 = normalizeLabel label then some p.2 else none

namespace Definitions

lemma find?_define (defs : Definitions) (label : Text) (d : Destination) (label' : Text) :
    (defs.define label d).find? label' =
      (defs.find? label').or
        (if normalizeLabel label = normalizeLabel label' then some d else none) := by
  unfold define
  by_cases hknown : (defs.find? label).isSome = true
  · rw [if_pos hknown]
    by_cases hsame : normalizeLabel label = normalizeLabel label'
    · have hfound : (defs.find? label').isSome = true := by
        rwa [find?, ← hsame]
      rw [if_pos hsame, Option.or_of_isSome hfound]
    · rw [if_neg hsame, Option.or_none]
  · rw [if_neg hknown, find?, find?, List.lookup_append]
    congr 1
    by_cases hsame : normalizeLabel label = normalizeLabel label'
    · rw [if_pos hsame, hsame, List.lookup_cons_self]
    · have hne : (normalizeLabel label' == normalizeLabel label) = false := by
        simpa using fun h => hsame h.symm
      rw [if_neg hsame, List.lookup_cons, hne, List.lookup_nil]

/-- **The first definition counts.**  Behind some blocks, a label has the destination that it had
before, or else the one of the first block that defines it. -/
theorem find?_addBlocks (defs : Definitions) (bs : List Block) (label : Text) :
    (defs.addBlocks bs).find? label =
      (defs.find? label).or (bs.findSome? (Block.destinationOf? label)) := by
  induction bs generalizing defs with
  | nil => simp [addBlocks]
  | cons b bs ih =>
    have hcons (defs' : Definitions) (hfirst : defs'.find? label =
        (defs.find? label).or (b.destinationOf? label)) :
        (defs'.addBlocks bs).find? label =
          (defs.find? label).or ((b :: bs).findSome? (Block.destinationOf? label)) := by
      rw [ih, hfirst, Option.or_assoc, List.findSome?_cons]
      cases b.destinationOf? label <;> rfl
    have hother (hb : b.destinationOf? label = none)
        (hadd : defs.addBlocks (b :: bs) = defs.addBlocks bs) :
        (defs.addBlocks (b :: bs)).find? label =
          (defs.find? label).or ((b :: bs).findSome? (Block.destinationOf? label)) := by
      rw [hadd]
      exact hcons defs (by rw [hb, Option.or_none])
    cases b with
    | leaf h c =>
      cases c with
      | definition l href title =>
        exact hcons (defs.define l ⟨href, title⟩) (find?_define defs l ⟨href, title⟩ label)
      | _ => exact hother rfl rfl
    | node h f children => exact hother rfl rfl

end Definitions

/-! ## Settings of nested scopes -/

namespace Settings

lemma lookup_insert_self (key : String) (v : Setting) (s : Settings) :
    (s.insert key v).lookup key = some v := by
  induction s with
  | nil => simp [insert]
  | cons p s ih =>
    obtain ⟨k, w⟩ := p
    unfold insert
    split
    next h => rw [h, List.lookup_cons_self]
    next h =>
      split
      · rw [List.lookup_cons_self]
      · rw [List.lookup_cons, beq_false_of_ne h]
        exact ih

lemma lookup_insert_of_ne {key key' : String} (hne : key' ≠ key) (v : Setting) (s : Settings) :
    (s.insert key v).lookup key' = s.lookup key' := by
  have hbeq : (key' == key) = false := beq_false_of_ne hne
  induction s with
  | nil => simp [insert, List.lookup_cons, hbeq]
  | cons p s ih =>
    obtain ⟨k, w⟩ := p
    unfold insert
    split
    next h => rw [List.lookup_cons, List.lookup_cons, ← h, hbeq]
    next =>
      split
      · rw [List.lookup_cons, hbeq]
      · rw [List.lookup_cons, List.lookup_cons, ih]

end Settings

/-- The content of a container is not at the top of its document. -/
lemma Scope.has_isTop_nested (scope : Scope) (key : String) (hkey : key ≠ Scope.isTop) :
    (scope.nested key).has Scope.isTop = false := by
  have hget : (scope.nested key).get? Scope.isTop = some (.flag false) := by
    simp only [Scope.nested, Scope.descend, Scope.set, Scope.get?]
    rw [Settings.lookup_insert_of_ne hkey.symm, Settings.lookup_insert_self]
  rw [Scope.has, hget]
  decide

/-! ## Where definitions come from -/

/-- A definition stands at the top of its document, if it stands anywhere in a block. -/
def Block.DefinesAtTop (scope : Scope) (b : Block) : Prop :=
  ∀ n ∈ b.nodes, n.kind = .definition → scope.has Scope.isTop = true ∧ n = b

lemma Block.definesAtTop_node {scope nested : Scope} {h : Head} {f : Block.Frame}
    {bs : List Block} (hf : f.kind ≠ .definition) (hnested : nested.has Scope.isTop = false)
    (hbs : ∀ b ∈ bs, ∀ n ∈ b.nodes, n.kind = .definition → nested.has Scope.isTop = true) :
    (Block.node h f bs).DefinesAtTop scope := by
  intro n hn hkind
  rw [Block.nodes_node, List.mem_cons, Block.mem_nodesAll] at hn
  rcases hn with rfl | ⟨b, hb, hn⟩
  · exact absurd hkind hf
  · have htop := hbs b hb n hn hkind
    rw [hnested] at htop
    cases htop

lemma linkDefinition?_top {scope : Scope} {cs : Text} {m : Found Block.Leaf}
    (h : linkDefinition? scope cs = some m) : scope.has Scope.isTop = true := by
  simp only [linkDefinition?] at h
  split at h
  next => cases h
  next htop =>
    rw [not_or, not_not] at htop
    exact htop.1

lemma BlockConstruct.recognize_definesAtTop {nest : Option BlockReader}
    (hnest : ∀ read, nest = some read → BlockReader.Yields read Block.DefinesAtTop)
    {scope : Scope} {cur : Cursor} {c : BlockConstruct} {m : Found Block.Body} {head : Head}
    (h : c.recognize nest scope cur = .ok (some m)) :
    (Block.ofBody head m.value).DefinesAtTop scope := by
  rcases c.recognize_cases h with
    ⟨read, hread, hquote⟩ | ⟨read, hread, hlist⟩ | ⟨f, hvalue, -, -⟩ | ⟨l, hvalue, -⟩
  · obtain ⟨-, bs, hbs, rfl⟩ := exists_of_blockquote? hquote
    refine Block.definesAtTop_node (by simp [Block.Frame.kind])
      (scope.has_isTop_nested Scope.isBlockQuote (by decide)) ?_
    refine groupCallouts_nodes (fun _ _ _ _ _ hP hk => hP hk) fun b hb n hn hdef => ?_
    exact (hnest read hread _ _ _ _ hbs b hb n hn hdef).1
  · obtain ⟨ordered, start, loose, items, hvalue, hitems⟩ := list?_value hlist
    rw [hvalue]
    refine Block.definesAtTop_node (by simp [Block.Frame.kind])
      (scope.has_isTop_nested Scope.isInList (by decide)) ?_
    intro i hi n hn hdef
    obtain ⟨_, checked, text, origin, bs, hbs, rfl⟩ := hitems i hi
    rw [Block.nodes_node, List.mem_cons, Block.mem_nodesAll] at hn
    rcases hn with rfl | ⟨b, hb, hn⟩
    · cases hdef
    · exact (hnest read hread _ _ _ _ hbs b hb n hn hdef).1
  · rw [hvalue]
    refine Block.definesAtTop_node (fun hkind => ?_)
      (scope.has_isTop_nested Scope.isInList (by decide)) (by simp)
    cases f <;> cases hkind
  · rw [hvalue]
    intro n hn hdef
    rw [Block.ofBody, Block.nodes_leaf, List.mem_singleton] at hn
    rw [hn] at hdef
    obtain ⟨hmade, -⟩ := BlockConstruct.recognize_leaf h hvalue
    obtain rfl : c = .definition := by
      have hmade : c.made = .definition := hmade.symm.trans hdef
      cases c <;> first | rfl | cases hmade
    obtain ⟨x, hx, -⟩ := Option.map_eq_some_iff.1 (Except.ok.inj h)
    exact ⟨linkDefinition?_top hx, hn⟩

/-- **Definitions stand at the top.**  A block of a text that holds a definition is the definition,
the text is read at the top of its document, and what is left of the text at the block's place is a
definition with that label and destination. -/
theorem scanBlocks_definition {rules : RuleSet} (hrules : rules.IsStandard) (scope : Scope)
    (text : Text) (origin : Point) :
    ∀ b ∈ (scanBlocks rules scope text origin).tokens, ∀ n ∈ b.nodes, n.kind = .definition →
      n = b ∧ ∃ before rest length label href title, text = before ++ rest ∧
        linkDefinition? scope rest = some ⟨length, .definition label href title⟩ ∧
          b = .leaf ⟨"def", ⟨origin.advance before, origin.advance (before ++ rest.take length)⟩⟩
            (.definition label href title) := by
  intro b hb n hn hdef
  have htop : b.DefinesAtTop scope := scanBlocks_tokens hrules
    (fun nest hnest scope cur c found _ h => BlockConstruct.recognize_definesAtTop hnest h)
    scope text origin b hb
  obtain ⟨-, rfl⟩ := htop n hn hdef
  refine ⟨rfl, ?_⟩
  obtain ⟨cur, c, found, ⟨before, htext, hpoint⟩, hfound, rfl⟩ :=
    runBlocks_places hrules _ scope text origin n hb
  have hmade : c.made = .definition := (BlockConstruct.recognize_kind hfound).symm.trans hdef
  obtain rfl : c = .definition := by
    cases c <;> first | rfl | cases hmade
  obtain ⟨⟨length, leaf⟩, hx, rfl⟩ := Option.map_eq_some_iff.1 (Except.ok.inj hfound)
  have hleaf : leaf.kind = .definition := hdef
  obtain ⟨label, href, title, rfl⟩ : ∃ label href title, leaf = .definition label href title := by
    cases leaf <;> first | exact ⟨_, _, _, rfl⟩ | cases hleaf
  refine ⟨before, cur.rest, length, label, href, title, htext, hx, ?_⟩
  simp only [Block.ofBody, Found.map, Cursor.spanOf, Cursor.drop, BlockConstruct.name, hpoint,
    Point.advance_append]

/-! ## The second pass, in any order -/

/-- One pending block, somewhere among some blocks or inside them, is completed. -/
inductive Block.CompletesOne (read : InlineReader) : List Block → List Block → Prop where
  | leaf {h : Head} {p : Pending} {l : Block.Leaf} {bs : List Block}
      (hl : p.complete read h.rule = .ok l) :
      CompletesOne read (.leaf h (.pending p) :: bs) (.leaf h l :: bs)
  | inside {h : Head} {f : Block.Frame} {cs cs' bs : List Block} (hcs : CompletesOne read cs cs') :
      CompletesOne read (.node h f cs :: bs) (.node h f cs' :: bs)
  | later {b : Block} {bs bs' : List Block} (hbs : CompletesOne read bs bs') :
      CompletesOne read (b :: bs) (b :: bs')

/-- Whether no block among some blocks, or inside them, is pending. -/
def Block.AllDone (bs : List Block) : Prop := ∀ b ∈ bs, ∀ n ∈ b.nodes, n.kind ≠ .pending

namespace Block

variable {read : InlineReader}

lemma resolve_leaf_of_ne {h : Head} {c : Leaf} (hc : c.kind ≠ .pending) :
    (Block.leaf h c).resolve read = .ok (.leaf h c) := by
  rw [resolve]
  rintro p rfl
  exact hc rfl

/-- Completing one pending block leaves the outcome of the second pass as it is. -/
lemma CompletesOne.resolveAll_eq {bs bs' : List Block} (h : CompletesOne read bs bs') :
    resolveAll read bs' = resolveAll read bs := by
  induction h with
  | @leaf h p l bs hl =>
    have hkind : l.kind ≠ .pending := by
      have hmem := (Pending.complete_leaf hl).1
      intro hpending
      rw [hpending] at hmem
      revert hmem
      decide
    have hdone : (Block.leaf h l).resolve read = .ok (.leaf h l) := resolve_leaf_of_ne hkind
    have hpending : (Block.leaf h (.pending p)).resolve read = .ok (.leaf h l) := by
      rw [resolve, hl]
      rfl
    rw [resolveAll, resolveAll, hdone, hpending]
  | inside hcs ih => rw [resolveAll, resolveAll, resolve, resolve, ih]
  | later hbs ih => rw [resolveAll, resolveAll, ih]

lemma resolveAll_of_allDone {bs : List Block} (h : AllDone bs) : resolveAll read bs = .ok bs := by
  have hall {bs : List Block} (hbs : ∀ b ∈ bs, b.resolve read = .ok b) :
      resolveAll read bs = .ok bs := by
    induction bs with
    | nil => rw [resolveAll]
    | cons b bs ih =>
      rw [resolveAll, hbs b List.mem_cons_self, ih fun d hd => hbs d (List.mem_cons_of_mem _ hd)]
      rfl
  refine hall fun b hb => ?_
  have hdone := h b hb
  clear hb
  induction b using Block.induction with
  | leaf hd c => exact resolve_leaf_of_ne (hdone (.leaf hd c) (by simp))
  | node hd f cs ih =>
    rw [Block.forall_nodes_node] at hdone
    rw [resolve, hall fun c hc => ih c hc (hdone.2 c hc)]
    rfl

/-- **Any order will do.**  However pending blocks are completed one by one, the second pass has the
same outcome afterwards; when none is left, the blocks are that outcome. -/
theorem resolveAll_of_completes {bs bs' : List Block}
    (h : Relation.ReflTransGen (CompletesOne read) bs bs') :
    resolveAll read bs' = resolveAll read bs ∧ (AllDone bs' → resolveAll read bs = .ok bs') := by
  have heq : resolveAll read bs' = resolveAll read bs := by
    induction h with
    | refl => rfl
    | tail _ hlast ih => rw [hlast.resolveAll_eq, ih]
  exact ⟨heq, fun hdone => heq ▸ resolveAll_of_allDone hdone⟩

end Block

/-! ## References -/

/-- The destination that a link or an image carries. -/
def Inline.destination? : Inline → Option Destination
  | .node _ (.link href title) _ => some ⟨href, title⟩
  | .leaf _ (.image src title _) => some ⟨src, title⟩
  | _ => none

/-- The key of a reference that a rule makes where `rest` is left of the text: for `[text][key]` the
second label, or the first one where the second is empty; for `[key]` the label itself. -/
def LooksUp (rule : String) (rest key : Text) : Prop :=
  ∃ l, label? rest = some l ∧
    ((rule = "nolink" ∧ key = l.text) ∨
      (rule = "reflink" ∧ ∃ second after, rest.drop l.length = '[' :: second ++ ']' :: after ∧
        ']' ∉ second ∧ key = if second = [] then l.text else second))

/-- A token that, if a reference rule made it, carries the definition of its key. -/
def CarriesDefinition (defs : Definitions) (t : Inline) (rest : Text) : Prop :=
  t.head.rule = "reflink" ∨ t.head.rule = "nolink" →
    ∃ key d, LooksUp t.head.rule rest key ∧ defs.find? key = some d ∧ t.destination? = some d

lemma labelLength?_append {depth bytes n : Nat} {escaped : Bool} {cs : Text} (ds : Text)
    (h : labelLength? depth escaped bytes cs = some n) :
    labelLength? depth escaped bytes (cs ++ ds) = some n := by
  induction cs generalizing depth escaped bytes n with
  | nil => simp [labelLength?] at h
  | cons c cs ih =>
    have hmore {depth bytes : Nat} {escaped : Bool}
        (h : (labelLength? depth escaped bytes cs).map (· + 1) = some n) :
        (labelLength? depth escaped bytes (cs ++ ds)).map (· + 1) = some n := by
      obtain ⟨k, hk, rfl⟩ := Option.map_eq_some_iff.1 h
      rw [ih hk]
      rfl
    simp only [labelLength?, List.cons_append] at h ⊢
    grind

/-- A label ends where its bracket closes, whatever follows. -/
lemma label?_append {cs : Text} {l : Label} (ds : Text) (h : label? cs = some l) :
    label? (cs ++ ds) = some l := by
  have htake {n : Nat} {rest : Text} (hn : labelLength? 0 false 0 rest = some n) :
      (rest ++ ds).take n = rest.take n :=
    List.take_append_of_le_length (labelLength?_lt hn).le
  simp only [label?] at h
  split at h
  next rest =>
    obtain ⟨n, hn, rfl⟩ := Option.map_eq_some_iff.1 h
    simp only [label?, List.cons_append, labelLength?_append ds hn, Option.map_some, htake hn]
  next rest =>
    obtain ⟨n, hn, rfl⟩ := Option.map_eq_some_iff.1 h
    simp only [label?, List.cons_append, labelLength?_append ds hn, Option.map_some, htake hn]
  next => cases h

lemma LooksUp.append {rule : String} {rest key : Text} (after : Text)
    (h : LooksUp rule rest key) : LooksUp rule (rest ++ after) key := by
  obtain ⟨l, hl, hkey⟩ := h
  refine ⟨l, label?_append after hl, hkey.imp_right ?_⟩
  rintro ⟨hrule, second, left, hrest, hsecond, hkey⟩
  refine ⟨hrule, second, left ++ after, ?_, hsecond, hkey⟩
  rw [List.drop_append_of_le_length (label?_length_le hl), hrest]
  simp

lemma linkVia_destination (head : Head) {target : Label → Text → Option (Found Destination)}
    {nest : Option InlineReader} {scope : Scope} {cur : Cursor} {m : Found Inline.Body}
    (h : linkVia target nest scope cur = .ok (some m)) :
    ∃ l d, label? cur.rest = some l ∧ target l (cur.rest.drop l.length) = some d ∧
      (Inline.ofBody head m.value).destination? = some d.value := by
  obtain ⟨l, d, hl, hd, hm⟩ := exists_of_linkVia h
  refine ⟨l, d, hl, hd, ?_⟩
  obtain rfl | ⟨read, ts, -, -, -, rfl⟩ := hm
  · rfl
  · rfl

lemma reference?_key {defs : Definitions} {l : Label} {cs : Text} {d : Found Destination}
    (h : reference? defs l cs = some d) :
    ∃ second after, cs = '[' :: second ++ ']' :: after ∧ ']' ∉ second ∧
      defs.find? (if second = [] then l.text else second) = some d.value := by
  simp only [reference?] at h
  split at h
  next rest =>
    split at h
    next => cases h
    next hclosed =>
      obtain ⟨dest, hdest, rfl⟩ := Option.map_eq_some_iff.1 h
      have hlength := (not_or.1 hclosed).1
      have hsplit := List.takeWhile_append_dropWhile (p := (decide <| · ≠ ']')) (l := rest)
      cases hafter : rest.dropWhile (decide <| · ≠ ']') with
      | nil =>
        rw [hafter, List.append_nil] at hsplit
        exact absurd (congrArg List.length hsplit) hlength
      | cons c after =>
        have hc : c = ']' := by
          have hhead := List.head?_dropWhile_not (decide <| · ≠ ']') rest
          rw [hafter] at hhead
          simpa using hhead
        refine ⟨rest.takeWhile (decide <| · ≠ ']'), after, ?_, ?_, ?_⟩
        · rw [hafter, hc] at hsplit
          rw [List.cons_append, hsplit]
        · intro hmem
          simpa using List.mem_takeWhile_imp hmem
        · simpa using hdest
  next => cases h

lemma InlineConstruct.recognize_carriesDefinition {defs : Definitions} {nest : Option InlineReader}
    {scope : Scope} {cur : Cursor} {c : InlineConstruct} {m : Found Inline.Body} {span : Span}
    (h : c.recognize defs nest scope cur = .ok (some m)) :
    CarriesDefinition defs (.ofBody ⟨c.name, span⟩ m.value) cur.rest := by
  intro hrule
  have hhead : (Inline.ofBody ⟨c.name, span⟩ m.value).head.rule = c.name := by
    cases m.value <;> rfl
  rw [hhead] at hrule ⊢
  rcases hrule with hrule | hrule
  · obtain rfl : c = .refLink := by
      cases c <;> first | rfl | simp [InlineConstruct.name] at hrule
    obtain ⟨l, d, hl, hd, hcarried⟩ := linkVia_destination ⟨_, span⟩ h
    obtain ⟨second, after, hrest, hsecond, hfind⟩ := reference?_key hd
    exact ⟨_, d.value, ⟨l, hl, .inr ⟨hrule, second, after, hrest, hsecond, rfl⟩⟩, hfind, hcarried⟩
  · obtain rfl : c = .shortLink := by
      cases c <;> first | rfl | simp [InlineConstruct.name] at hrule
    obtain ⟨l, d, hl, hd, hcarried⟩ := linkVia_destination ⟨_, span⟩ h
    obtain ⟨dest, hfind, rfl⟩ := Option.map_eq_some_iff.1 hd
    exact ⟨l.text, dest, ⟨l, hl, .inl ⟨hrule, rfl⟩⟩, hfind, hcarried⟩

/-- **References carry definitions.**  Every link or image that a reference rule makes in a text, at
any depth, carries the definition of the key that stands at its place. -/
theorem readInlines_carriesDefinition {rules : RuleSet} (hrules : rules.IsStandard)
    (defs : Definitions) : (readInlines rules defs).Places (CarriesDefinition defs) := by
  refine readInlines_places hrules ?_ fun _ _ _ _ _ _ h =>
    InlineConstruct.recognize_carriesDefinition h
  intro t rest after hcarries hrule
  obtain ⟨key, d, hkey, hfind⟩ := hcarries hrule
  exact ⟨key, d, hkey.append after, hfind⟩

/-! ## Documents -/

/-- The texts that are read when a pending block is completed: one for each of its inline
sequences. -/
def Pending.texts (p : Pending) : List Text :=
  match p.form with
  | .table _ header rows => header ++ rows.flatten
  | _ => [p.source]

/-- Each inline sequence of a completed block was read from its own text. -/
lemma Pending.complete_texts {read : InlineReader} {rule : String} {p : Pending} {l : Block.Leaf}
    (h : p.complete read rule = .ok l) :
    List.Forall₂ (fun text ts => read p.scope text p.origin = .ok ts) p.texts l.inlines := by
  obtain ⟨form, source, origin, scope⟩ := p
  cases Pending.becomes_of_complete h with
  | heading hts | paragraph hts | text hts => exact .cons hts .nil
  | table hheader hrows => exact List.rel_append hheader (List.rel_flatten hrows)

/-- A leaf with inline content was a pending block before the second pass. -/
lemma Block.resolve_leaf {read : InlineReader} {b b' : Block} (h : b.resolve read = .ok b')
    (hb : ∀ n ∈ b.nodes, n.IsScanned) {hd : Head} {c : Block.Leaf}
    (hc : .leaf hd c ∈ b'.nodes) (hinlines : c.inlines ≠ []) :
    ∃ p, .leaf hd (.pending p) ∈ b.nodes ∧ p.complete read hd.rule = .ok c := by
  induction b using Block.induction generalizing b' with
  | leaf hd' c' =>
    have hscanned : c'.IsScanned := hb (.leaf hd' c') (by simp)
    by_cases hpending : ∃ p, c' = .pending p
    · obtain ⟨p, rfl⟩ := hpending
      rw [Block.resolve] at h
      obtain ⟨l, hl, rfl⟩ := exists_of_map_ok h
      rw [Block.nodes_leaf, List.mem_singleton] at hc
      cases hc
      exact ⟨p, by simp, hl⟩
    · have hpending : ∀ p, c' ≠ .pending p := fun p hp => hpending ⟨p, hp⟩
      rw [Block.resolve.eq_2 read hd' c' hpending] at h
      cases h
      rw [Block.nodes_leaf, List.mem_singleton] at hc
      cases hc
      exact absurd (hscanned.isRead (h := hd) hpending).2 hinlines
  | node hd' f bs ih =>
    rw [Block.forall_nodes_node] at hb
    rw [Block.resolve] at h
    obtain ⟨bs', hbs, rfl⟩ := exists_of_map_ok h
    rw [Block.nodes_node, List.mem_cons, Block.mem_nodesAll] at hc
    rcases hc with hc | ⟨d', hd', hc⟩
    · cases hc
    · obtain ⟨d, hd, hres⟩ := exists_of_mem_forall₂ (Block.resolveAll_forall₂ hbs) d' hd'
      obtain ⟨p, hp, hcomplete⟩ := ih d hd hres (hb.2 d hd) hc
      refine ⟨p, ?_, hcomplete⟩
      rw [Block.nodes_node]
      exact List.mem_cons_of_mem _ (Block.mem_nodesAll.2 ⟨d, hd, hp⟩)

/-- **Definitions are settled by the first pass.**  A document of a dialect is read, and behind it a
label has the destination that it had before, or else the one of the first outermost block that
defines it; a block that holds a definition is the definition, as the source has it at the block's
place.  However the pending blocks of the first pass are completed with these definitions, one by
one and in any order, the outcome is that of the second pass.  And in every leaf of the tree, every
token that a reference rule made, at any depth, carries the definition of its key. -/
theorem definitions_settled (flavor : Flavor) (defs : Definitions) (scope : Scope) (text : Text) :
    let blocks := (scanBlocks flavor.rules scope text Point.start).tokens
    ∃ root defs', readWith flavor.rules defs scope text = (.ok root, defs') ∧
      (∀ label, defs'.find? label =
        (defs.find? label).or (blocks.findSome? (Block.destinationOf? label))) ∧
      (∀ b ∈ blocks, ∀ n ∈ b.nodes, n.kind = .definition → n = b ∧
        ∃ before rest length label href title, text = before ++ rest ∧
          linkDefinition? scope rest = some ⟨length, .definition label href title⟩ ∧
            b = .leaf ⟨"def", ⟨Point.start.advance before,
                Point.start.advance (before ++ rest.take length)⟩⟩
              (.definition label href title)) ∧
      (∀ bs, Relation.ReflTransGen (Block.CompletesOne (readInlines flavor.rules defs')) blocks bs →
        Block.resolveAll (readInlines flavor.rules defs') bs = .ok root.children ∧
          (Block.AllDone bs → bs = root.children)) ∧
      ∀ h c, .leaf h c ∈ root.nodes → c.inlines = [] ∨
        ∃ p, (∃ b ∈ blocks, .leaf h (.pending p) ∈ b.nodes) ∧
          List.Forall₂
            (fun source ts => ∀ t ∈ ts, ∀ u ∈ t.nodes,
              u.Stands (CarriesDefinition defs') source p.origin)
            p.texts c.inlines := by
  intro blocks
  have hrules := flavor.rules_isStandard
  obtain ⟨root, hroot⟩ := exists_readWith hrules flavor.rules_hasText defs scope text
  have hread : readWith flavor.rules defs scope text = (.ok root, defs.addBlocks blocks) := by
    rw [← hroot]
    rfl
  obtain ⟨bs, bs', hbs, hbs', rfl⟩ := readWith_ok hroot
  obtain ⟨-, hblocks⟩ := Run.tokens_of_toExcept hbs
  obtain rfl : blocks = bs := hblocks
  refine ⟨_, _, hread, defs.find?_addBlocks blocks,
    scanBlocks_definition hrules scope text Point.start, ?_, ?_⟩
  · intro ds hds
    obtain ⟨heq, hdone⟩ := Block.resolveAll_of_completes hds
    refine ⟨heq.trans hbs', fun hall => ?_⟩
    have hsame := (hdone hall).symm.trans hbs'
    exact Except.ok.inj hsame
  · intro h c hc
    by_cases hinlines : c.inlines = []
    · exact .inl hinlines
    · rw [Block.ofDocument, Block.nodes_node, List.mem_cons, Block.mem_nodesAll] at hc
      rcases hc with hc | ⟨b', hb', hc⟩
      · cases hc
      · obtain ⟨b, hb, hres⟩ := exists_of_mem_forall₂ (Block.resolveAll_forall₂ hbs') b' hb'
        have hscanned := scanBlocks_isScanned hrules scope text Point.start b hb
        obtain ⟨p, hp, hcomplete⟩ := Block.resolve_leaf hres hscanned hc hinlines
        refine .inr ⟨p, ⟨b, hb, hp⟩, (Pending.complete_texts hcomplete).imp ?_⟩
        intro source ts hts
        exact readInlines_carriesDefinition hrules _ _ _ _ _ hts

end Docmark
