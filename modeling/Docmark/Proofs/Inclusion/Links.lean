import Mathlib
import Docmark.Proofs.Inclusion.Build
import Docmark.Proofs.Rewrite.Landing

/-!
# Links of included files

The links of an included file are written anew for each file that its tree is moved into.  Here
every link and image of a built document is followed back to the file that it comes from, and shown
to lead where it leads there, unless its target is lost on the way up: each file sees only what the
one below has made of it.

## Main results

* `Engine.links_lead_on` — where the links of a built document lead.
* `target_is_lost` — a target that is lost on its way through a third file.
-/

namespace Docmark

/-! ## Targets in a tree -/

/-- The target of a link or an image, with the head of its token. -/
structure LinkTarget where
  head : Head
  target : Text

/-- The target that a token has. -/
def Token.target? : Token → Option LinkTarget
  | .inline (.node h (.link href _) _) => some ⟨h, href⟩
  | .inline (.leaf h (.image src _ _)) => some ⟨h, src⟩
  | _ => none

/-- The targets of the links and images in a tree. -/
def Block.targets (b : Block) : List LinkTarget := b.collect Token.target?

lemma Token.target?_isContentTest : Token.IsContentTest Token.target? where
  blockNode _ _ _ := rfl
  blockLeaf _ _ _ := rfl
  inlineNode _ f _ _ := by cases f <;> rfl
  included _ _ _ := rfl
  text _ _ := rfl
  raw _ _ := rfl

lemma Token.target?_mapTargets (f : Text → Text) (t : Inline) :
    Token.target? (.inline (t.mapTargets f)) =
      (Token.target? (.inline t)).map fun x => ⟨x.head, f x.target⟩ := by
  cases t with
  | leaf h c =>
    rw [Inline.mapTargets_leaf]
    cases c <;> rfl
  | node h fr ts =>
    rw [Inline.mapTargets_node]
    cases fr <;> rfl

lemma Block.mem_targets {b : Block} {x : LinkTarget} :
    x ∈ b.targets ↔ ∃ t ∈ b.inlineNodes, Token.target? (.inline t) = some x := by
  rw [Block.targets, Block.mem_collect]
  exact or_iff_right fun ⟨_, _, hn⟩ => by cases hn

/-- The targets of a tree with other targets are those of the tree, one for another. -/
lemma Block.exists_of_mem_targets_mapTargets {f : Text → Text} {b : Block} {x : LinkTarget}
    (hx : x ∈ (b.mapTargets f).targets) : ∃ y ∈ b.targets, x = ⟨y.head, f y.target⟩ := by
  rw [Block.mem_targets, Block.inlineNodes_mapTargets] at hx
  obtain ⟨_, hmem, hx⟩ := hx
  obtain ⟨t, ht, rfl⟩ := List.mem_map.1 hmem
  rw [Token.target?_mapTargets] at hx
  obtain ⟨y, hy, rfl⟩ := Option.map_eq_some_iff.1 hx
  exact ⟨y, Block.mem_targets.2 ⟨t, ht, hy⟩, rfl⟩

/-! ## Targets on their way up -/

/-- The directory of a file, if it is known. -/
def OpenFile.dir? (f : OpenFile) : Option Path := f.path.bind Path.parent?

namespace Engine

/-- A target in the tree of an included file, as it is carried to the including one. -/
def carriedTarget (target source : Option Path) (x : LinkTarget) : LinkTarget :=
  ⟨x.head, carried (target.bind Path.parent?) (source.bind Path.parent?) x.target⟩

lemma target?_movesWith : MovesWith Token.target? carriedTarget := by
  intro file path root
  have hkeep (hcarried : ∀ x, carriedTarget file (some path) x = x) :
      root.Holds Token.target? fun x =>
        ∃ y ∈ root.collect Token.target?, x = carriedTarget file (some path) y :=
    fun x hx => ⟨x, hx, (hcarried x).symm⟩
  simp only [rebaseIncluded]
  split
  next target source htarget hsource =>
    have hmoved (x : LinkTarget) : carriedTarget file (some path) x =
        ⟨x.head, carried (some target) (some source) x.target⟩ := by
      rw [carriedTarget, htarget, Option.bind_some, hsource]
    split
    next hid =>
      refine Reports.pure (hkeep fun x => ?_)
      rw [hmoved, carried, if_pos hid]
    next hid =>
      rw [LinkRebase.rewriter_pass]
      refine Reports.pure fun x hx => ?_
      obtain ⟨y, hy, rfl⟩ := Block.exists_of_mem_targets_mapTargets hx
      refine ⟨y, hy, ?_⟩
      rw [hmoved, carried, if_neg hid]
  next hunknown =>
    refine Reports.pure (hkeep fun x => ?_)
    have hnone : carried (file.bind Path.parent?) (path.parent?) x.target = x.target := by
      cases htarget : file.bind Path.parent? with
      | none => rfl
      | some target =>
        cases hsource : path.parent? with
        | none => rfl
        | some source => exact absurd hsource (hunknown target source htarget)
    exact congrArg (LinkTarget.mk x.head) hnone

/-- A target that is carried up comes from the last of some files, each of which includes the
next. -/
lemma Carries.exists_chain {e : Engine} {f : OpenFile} {x : LinkTarget}
    (h : e.Carries Token.target? carriedTarget f x) :
    ∃ gs last root, List.IsChain e.Includes (f :: gs) ∧ (f :: gs).getLast? = some last ∧
      e.HasTree last root ∧ ∃ y ∈ root.targets,
        x = ⟨y.head, carriedUp ((f :: gs).map OpenFile.dir?) y.target⟩ := by
  induction h with
  | own hroot hx => exact ⟨[], _, _, List.isChain_singleton _, rfl, hroot, _, hx, rfl⟩
  | @included f g x hg _ ih =>
    obtain ⟨gs, last, root, hchain, hlast, hroot, y, hy, rfl⟩ := ih
    refine ⟨g :: gs, last, root, List.isChain_cons_cons.2 ⟨hg, hchain⟩, ?_, hroot, y, hy, rfl⟩
    rw [List.getLast?_cons_cons, hlast]

/-- **Links lead on where they led.**  With the rules of a dialect and no further passes, a document
is built, whatever files include what.  The target of each link and image in it, at any depth, comes
from the tree of the last of some files, the first of which is the document and each of which
includes the next; and if it is not lost on the way up through their directories, and climbs at most
once above the start, it leads from the directory of the document to where it led from the one of
the last file, with the same query and fragment.  Rebasing twice is rebasing once where the target
in between is still a relative one. -/
theorem links_lead_on (e : Engine) (flavor : Flavor) (files : MemoryFiles)
    (rules : List TagRule) (source : Source) :
    let e' := ((e.ofFlavor flavor).overFiles files).checking rules
    let start := e'.outermost source
    (∃ d, e'.parse source = .ok d ∧ ∀ x ∈ d.root.targets,
      ∃ gs last root, List.IsChain e'.Includes (start :: gs) ∧
        (start :: gs).getLast? = some last ∧ e'.HasTree last root ∧
        ∃ y ∈ root.targets, x.head = y.head ∧
          x.target = carriedUp ((start :: gs).map OpenFile.dir?) y.target ∧
          ∀ dir dir', start.dir? = some dir → last.dir? = some dir' →
            SurvivesUp ((start :: gs).map OpenFile.dir?) y.target →
              IsSteadyFrom dir x.target → IsSteadyFrom dir' y.target →
                landing dir x.target = landing dir' y.target) ∧
    ∀ (a b c : Path) (t t' : Text), IsUnmarked c →
      (LinkRebase.between c b).rebase? t = some t' → isRelativeTarget t' = true →
        (LinkRebase.between b a).rebase? t' = (LinkRebase.between c a).rebase? t := by
  intro e' start
  have he : e'.IsChecking rules := checking_isChecking e flavor files rules
  obtain ⟨d, hd, hholds, -⟩ :=
    parse_gathers he Token.target?_isContentTest target?_movesWith source
  refine ⟨⟨d, hd, fun x hx => ?_⟩, fun a b c t t' hc h ht' => LinkRebase.rebase?_trans hc h ht' a⟩
  obtain ⟨gs, last, root, hchain, hlast, hroot, y, hy, rfl⟩ := (hholds x hx).exists_chain
  refine ⟨gs, last, root, hchain, hlast, hroot, y, hy, rfl, rfl, ?_⟩
  intro dir dir' hdir hdir' hsurvives hsteady hsteady'
  refine (alike_carriedUp ?_ ?_ hsurvives).landing_eq hsteady hsteady'
  · rw [List.map_cons, List.head?_cons, hdir]
  · rw [List.getLast?_map, hlast, Option.map_some, hdir']

end Engine

/-- **A target may be lost.**  From `sub` to the directory above it, the target `../x:y.md` becomes
`x:y.md`, which looks like one with a scheme; so it stays like this in the directory `a`, from where
it leads elsewhere.  On the direct way it does not get lost. -/
theorem target_is_lost :
    let t := "../x:y.md".toList
    let up := ["a".toList, [], "sub".toList].map some
    carriedUp up t = "x:y.md".toList ∧
      (landing "a".toList (carriedUp up t)).place.trail = ["x:y.md".toList, "a".toList] ∧
      (landing "sub".toList t).place.trail = ["x:y.md".toList] ∧
      (LinkRebase.between "sub".toList "a".toList).rebase? t = some "../x:y.md".toList := by
  decide

end Docmark
