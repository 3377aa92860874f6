import Mathlib
import Docmark.Proofs.Reading.Carried
import Docmark.Proofs.Reading.Total

/-!
# Texts that stand elsewhere in a file

A text may be read from any place of a file.  What is read is the same as from the start, moved: the
lines count on from the line of that place, columns count on from its column on the first line only,
and offsets count on from its offset.  So no decision and no kind depends on where a text stands.

## Main results

* `carriesFrom_moved` — moving all points of a file goes along with passing over text.
* `scanBlocks_pendingCarried` — the places from which pending blocks are read come from the text.
* `readFrom_moved` — both passes over a text, and the reading of inlines, from any place.
-/

namespace Docmark

/-! ## Both passes -/

/-- Reads the blocks of a text that starts at a place of a file, in both passes, and yields them
with the definitions that hold afterwards. -/
def readFrom (rules : RuleSet) (defs : Definitions) (scope : Scope) (text : Text) (origin : Point) :
    Except Fault (List Block) × Definitions :=
  let run := scanBlocks rules scope text origin
  let defs := defs.addBlocks run.tokens
  (run.toExcept >>= Block.resolveAll (readInlines rules defs), defs)

/-- A document is read from the start. -/
lemma readWith_eq_readFrom (rules : RuleSet) (defs : Definitions) (scope : Scope) (text : Text) :
    readWith rules defs scope text =
      ((readFrom rules defs scope text Point.start).1.map (Block.ofDocument text),
        (readFrom rules defs scope text Point.start).2) := by
  simp only [readWith, readFrom]
  cases (scanBlocks rules scope text Point.start).toExcept with
  | error e => rfl
  | ok bs =>
    simp only [bind, Except.bind]
    cases Block.resolveAll _ bs <;> rfl

/-! ## Pending blocks -/

section Scan

variable {rules : RuleSet} (hrules : rules.IsStandard) {f : Point → Point}

include hrules

/-- From wherever a pending block of the first pass is to be read, a map of points goes along that
does so from the start of the text. -/
lemma scanBlocks_pendingCarried (scope : Scope) (text : Text) {o : Point} (ho : CarriesFrom f o) :
    ∀ b ∈ (scanBlocks rules scope text o).tokens, b.PendingCarried f := by
  classical
  -- a map that keeps just these places keeps all that the first pass yields
  set g : Point → Point := fun p => if CarriesFrom f p then p else o with hg
  have hkeep {p : Point} (hp : CarriesFrom f p) : g p = p := if_pos hp
  have hgo : CarriesFrom g o := fun cs => by rw [hkeep ho, hkeep (ho.advance cs)]
  have hrun := scanBlocks_carried hrules scope text hgo
  rw [hkeep ho] at hrun
  have htokens : (scanBlocks rules scope text o).tokens.map (Block.mapPoints g) =
      (scanBlocks rules scope text o).tokens.map id := by
    rw [List.map_id]
    exact (congrArg Run.tokens hrun).symm
  intro b hb h p hp
  have horigin : g p.origin = p.origin :=
    Block.pending_of_mapPoints_eq (List.map_inj_left.1 htokens b hb) h p hp
  by_contra hnot
  have hback : g p.origin = o := if_neg hnot
  exact hnot (horigin ▸ hback ▸ ho)

/-- **Both passes** come to the same at another place. -/
theorem readFrom_carried (defs : Definitions) (scope : Scope) (text : Text) {o : Point}
    (ho : CarriesFrom f o) :
    readFrom rules defs scope text (f o) =
      (mapOutcome f (List.map (Block.mapPoints f)) (readFrom rules defs scope text o).1,
        (readFrom rules defs scope text o).2) := by
  have hscan := scanBlocks_carried hrules scope text ho
  have hdefs : defs.addBlocks (scanBlocks rules scope text (f o)).tokens =
      defs.addBlocks (scanBlocks rules scope text o).tokens := by
    rw [hscan]
    exact addBlocks_mapPoints f defs _
  simp only [readFrom, hdefs]
  rw [hscan, Run.toExcept_mapPoints]
  cases hrun : (scanBlocks rules scope text o).toExcept with
  | error e => rfl
  | ok bs =>
    obtain ⟨-, htokens⟩ := Run.tokens_of_toExcept hrun
    refine Prod.ext (resolveAll_of_resolve fun b hb => ?_) rfl
    rw [← htokens] at hb
    exact Block.resolve_carried (readInlines_carried hrules _)
      (scanBlocks_pendingCarried hrules scope text ho b hb)

end Scan

/-! ## Moving a text -/

/-- The place `p` of a text, where the text starts at `o`. -/
def Point.moved (o p : Point) : Point :=
  ⟨o.line + p.line - 1, if p.line = 1 then o.column + p.column - 1 else p.column,
    o.offset + p.offset⟩

/-- Moving goes along with passing over one character. -/
lemma Point.moved_step (o : Point) {p : Point} (hline : 1 ≤ p.line) (hcolumn : 1 ≤ p.column)
    (c : Char) : o.moved (p.step c) = (o.moved p).step c := by
  have hnext : p.line + 1 ≠ 1 := by omega
  have hlines : o.line + (p.line + 1) - 1 = o.line + p.line - 1 + 1 := by omega
  by_cases hc : c = '\n'
  · simp only [step, moved, if_pos hc, if_neg hnext, hlines, Nat.add_assoc]
  · by_cases hfirst : p.line = 1
    · have hcolumns : o.column + (p.column + 1) - 1 = o.column + p.column - 1 + 1 := by omega
      simp only [step, moved, if_neg hc, if_pos hfirst, hcolumns, Nat.add_assoc]
    · simp only [step, moved, if_neg hc, if_neg hfirst, Nat.add_assoc]

/-- Moving a text goes along with passing over it. -/
lemma carriesFrom_moved (o : Point) : CarriesFrom o.moved Point.start := by
  have hadvance (cs : Text) (p : Point) (hline : 1 ≤ p.line) (hcolumn : 1 ≤ p.column) :
      o.moved (p.advance cs) = (o.moved p).advance cs := by
    induction cs generalizing p with
    | nil => rfl
    | cons c cs ih =>
      have hnext : 1 ≤ (p.step c).line ∧ 1 ≤ (p.step c).column := by
        rw [Point.step]
        split
        · exact ⟨Nat.le_add_left 1 _, le_rfl⟩
        · exact ⟨hline, Nat.le_add_left 1 _⟩
      rw [Point.advance_cons, Point.advance_cons, ih _ hnext.1 hnext.2, o.moved_step hline hcolumn]
  exact fun cs => hadvance cs Point.start le_rfl le_rfl

/-- **Places count from where the text starts.**  Read from any place of a file, a text gives what
it gives from the start of one, with all points of the tree, at every depth, and that of the fault
moved along: by both passes with the same definitions, and where inlines are read. -/
theorem readFrom_moved {rules : RuleSet} (hrules : rules.IsStandard) (defs : Definitions)
    (scope : Scope) (text : Text) (o : Point) :
    readFrom rules defs scope text o =
      (mapOutcome o.moved (List.map (Block.mapPoints o.moved))
          (readFrom rules defs scope text Point.start).1,
        (readFrom rules defs scope text Point.start).2) ∧
    readInlines rules defs scope text o =
      mapOutcome o.moved (List.map (Inline.mapPoints o.moved))
        (readInlines rules defs scope text Point.start) := by
  have ho := carriesFrom_moved o
  exact ⟨readFrom_carried hrules defs scope text ho,
    readInlines_carried hrules defs scope text _ ho⟩

/-- A quoted item with emphasis on its second line, read from the third column of a line. -/
theorem readFrom_moved_dfm : dfmRules.IsStandard ∧
    ∃ bs, (readFrom dfmRules [] Scope.document "> - a\n  *b*\n".toList Point.start).1 = .ok bs ∧
      (readFrom dfmRules [] Scope.document "> - a\n  *b*\n".toList ⟨5, 3, 40⟩).1 =
        .ok (bs.map (Block.mapPoints (Point.moved ⟨5, 3, 40⟩))) ∧
      Point.moved ⟨5, 3, 40⟩ ⟨1, 5, 4⟩ = ⟨5, 7, 44⟩ ∧
      Point.moved ⟨5, 3, 40⟩ ⟨2, 3, 8⟩ = ⟨6, 3, 48⟩ := by
  have hrules : dfmRules.IsStandard := Flavor.rules_isStandard .dfm
  obtain ⟨root, hroot⟩ := exists_readWith hrules (Flavor.rules_hasText .dfm) [] Scope.document
    "> - a\n  *b*\n".toList
  rw [readWith_eq_readFrom] at hroot
  obtain ⟨bs, hbs, -⟩ := exists_of_map_ok hroot
  have hmoved := (readFrom_moved hrules [] Scope.document "> - a\n  *b*\n".toList ⟨5, 3, 40⟩).1
  refine ⟨hrules, bs, hbs, ?_, rfl, rfl⟩
  rw [hmoved, hbs, mapOutcome_ok]

end Docmark
