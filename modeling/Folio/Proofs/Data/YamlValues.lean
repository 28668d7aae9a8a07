import Folio.Data.Yaml.Load
import Folio.Proofs.Data.YamlTokens

/-!
# How loading a text in YAML fails

Tokens that form no tree are malformed, and so are nodes that their tags do not fit.  Any other
fault is raised where a scalar of the tree is read as what its tag says: a truth value, a number
or a point in time (`Unreadable`).

Loading goes through the tree in several ways, but it only meets nodes that are parts of the
tree, or keys that merging has made texts.  `Accounts E node` says that `E` holds of every fault
that a part of `node` can raise; it goes from a node to what it is made of, so each function has
a rule for it, and `gives_load` is the rule for a text.
-/

namespace Folio.Data.Yaml

variable {α β : Type} {E : Fault → Prop}

theorem Gives.mapM {f : α → Except Fault β} {R : β → Prop} {xs : List α}
    (hf : ∀ x ∈ xs, Gives R E (f x)) : Gives (fun ys => ∀ y ∈ ys, R y) E (xs.mapM f) := by
  induction xs with
  | nil => exact .ok fun y hy => absurd hy List.not_mem_nil
  | cons x xs ih =>
      obtain ⟨hx, hxs⟩ := List.forall_mem_cons.mp hf
      rw [List.mapM_cons]
      exact hx.bind fun y hy => (ih hxs).bind fun ys hys => .ok (List.forall_mem_cons.mpr ⟨hy, hys⟩)

/-! ## The tree -/

/-- All that can be wrong is that the text is malformed. -/
def OnlyMalformed (r : Except Fault α) : Prop :=
  Gives (fun _ => True) (· = .malformed) r

theorem onlyMalformed_ok (v : α) : OnlyMalformed (.ok v) :=
  Gives.ok trivial

theorem onlyMalformed_error : OnlyMalformed (.error .malformed : Except Fault α) :=
  Gives.error rfl

theorem OnlyMalformed.bind {r : Except Fault α} {f : α → Except Fault β} (h : OnlyMalformed r)
    (hf : ∀ v, OnlyMalformed (f v)) : OnlyMalformed (r >>= f) :=
  Gives.bind h fun v _ => hf v

theorem OnlyMalformed.ite {p : Prop} [Decidable p] {a b : Except Fault α} (ha : OnlyMalformed a)
    (hb : OnlyMalformed b) : OnlyMalformed (if p then a else b) :=
  Gives.ite (fun _ => ha) fun _ => hb

theorem OnlyMalformed.map {r : Except Fault α} (h : OnlyMalformed r) (g : α → β) :
    OnlyMalformed (r.map g) :=
  Gives.map h fun _ _ => trivial

theorem onlyMalformed_tagName (names : Names)
    (written : Option (Option (List Char) × List Char)) : OnlyMalformed (tagName names written) := by
  unfold tagName
  split
  · exact onlyMalformed_ok _
  · exact onlyMalformed_ok _
  · split
    · exact onlyMalformed_ok _
    · exact onlyMalformed_error

theorem onlyMalformed_announce (names : Names) (anchor : Option (List Char)) :
    OnlyMalformed (names.announce anchor) := by
  unfold Names.announce
  split
  · exact onlyMalformed_ok _
  · exact onlyMalformed_error.ite (onlyMalformed_ok _)

/-- What the functions that read a tree have in common, when they may go `fuel` deep. -/
structure ReadsTree (fuel : Nat) : Prop where
  node : ∀ site names tokens, OnlyMalformed (readNode fuel site names tokens)
  blockItems : ∀ names tokens, OnlyMalformed (readBlockItems fuel names tokens)
  indentless : ∀ names tokens, OnlyMalformed (readIndentless fuel names tokens)
  blockPairs : ∀ names tokens, OnlyMalformed (readBlockPairs fuel names tokens)
  flowItems : ∀ first names tokens, OnlyMalformed (readFlowItems fuel first names tokens)
  flowValue : ∀ closing names tokens, OnlyMalformed (readFlowValue fuel closing names tokens)
  flowPairs : ∀ first names tokens, OnlyMalformed (readFlowPairs fuel first names tokens)

namespace ReadsTree

variable {fuel : Nat}

theorem node_succ (h : ReadsTree fuel) (site : Site) (names : Names) (tokens : List Token) :
    OnlyMalformed (readNode (fuel + 1) site names tokens) := by
  unfold readNode
  split
  · split
    · exact onlyMalformed_ok _
    · exact onlyMalformed_error
  · dsimp only
    refine (onlyMalformed_tagName _ _).bind fun written => ?_
    refine (onlyMalformed_announce _ _).bind fun names => ?_
    split
    · exact (h.indentless _ _).bind fun found => onlyMalformed_ok _
    · exact onlyMalformed_ok _
    · exact (h.flowItems _ _ _).bind fun found => onlyMalformed_ok _
    · exact (h.flowPairs _ _ _).bind fun found => onlyMalformed_ok _
    · exact (h.blockItems _ _).bind fun found => onlyMalformed_ok _
    · exact (h.blockItems _ _).bind fun found => onlyMalformed_ok _
    · exact (h.blockPairs _ _).bind fun found => onlyMalformed_ok _
    · exact (h.blockPairs _ _).bind fun found => onlyMalformed_ok _
    · exact (onlyMalformed_ok _).ite onlyMalformed_error

/-- What follows a node that may be missing, in which case it is empty. -/
theorem orEmpty (h : ReadsTree fuel) {p : Prop} [Decidable p] {site : Site} {names : Names}
    {tokens : List Token} {f : Node × Names × List Token → Except Fault α}
    (hf : ∀ found, OnlyMalformed (f found)) :
    OnlyMalformed (if p then pure (Node.empty, names, tokens) >>= f
      else readNode fuel site names tokens >>= f) :=
  ((onlyMalformed_ok _).bind hf).ite ((h.node _ _ _).bind hf)

theorem blockItems_succ (h : ReadsTree fuel) (names : Names) (tokens : List Token) :
    OnlyMalformed (readBlockItems (fuel + 1) names tokens) := by
  unfold readBlockItems
  split
  · exact h.orEmpty fun found => (h.blockItems _ _).bind fun others => onlyMalformed_ok _
  · exact onlyMalformed_ok _
  · exact onlyMalformed_error

theorem indentless_succ (h : ReadsTree fuel) (names : Names) (tokens : List Token) :
    OnlyMalformed (readIndentless (fuel + 1) names tokens) := by
  unfold readIndentless
  split
  · exact h.orEmpty fun found => (h.indentless _ _).bind fun others => onlyMalformed_ok _
  · exact onlyMalformed_ok _

/-- What follows the value of a pair in a block, which may be missing. -/
theorem afterValue (h : ReadsTree fuel) {names : Names} {tokens : List Token}
    {f : Node × Names × List Token → Except Fault α} (hf : ∀ found, OnlyMalformed (f found)) :
    OnlyMalformed (match tokens with
      | .value :: rest =>
          if endsBlockPair rest then pure (Node.empty, names, rest) >>= f
          else readNode fuel .blockValue names rest >>= f
      | _ => pure (Node.empty, names, tokens) >>= f) := by
  split
  · exact h.orEmpty hf
  · exact hf _

theorem blockPairs_succ (h : ReadsTree fuel) (names : Names) (tokens : List Token) :
    OnlyMalformed (readBlockPairs (fuel + 1) names tokens) := by
  have hpairs : ∀ (key : Node) (value : Node × Names × List Token), OnlyMalformed
      (readBlockPairs fuel value.2.1 value.2.2 >>= fun others =>
        pure ((key, value.1) :: others.1, others.2)) := fun key value =>
    (h.blockPairs _ _).bind fun others => onlyMalformed_ok _
  unfold readBlockPairs
  split
  · exact onlyMalformed_ok _
  · dsimp only
    split
    · exact h.orEmpty fun key => h.afterValue fun value => hpairs key.1 value
    · exact (onlyMalformed_ok _).bind fun key => h.afterValue fun value => hpairs key.1 value
    · exact onlyMalformed_error

/-- What follows the comma in front of an entry in brackets; the first has none. -/
theorem afterComma {f : List Token → Except Fault α} (first : Bool) (tokens : List Token)
    (hf : ∀ tokens, OnlyMalformed (f tokens)) :
    OnlyMalformed (match first, tokens with
      | true, _ => pure tokens >>= f
      | false, .flowEntry :: rest => pure rest >>= f
      | false, _ => throw .malformed >>= f) := by
  split
  · exact hf _
  · exact hf _
  · exact onlyMalformed_error

theorem flowItems_succ (h : ReadsTree fuel) (first : Bool) (names : Names) (tokens : List Token) :
    OnlyMalformed (readFlowItems (fuel + 1) first names tokens) := by
  unfold readFlowItems
  split
  · exact onlyMalformed_ok _
  · refine afterComma first _ fun tokens => ?_
    dsimp only
    split
    · exact onlyMalformed_ok _
    · exact h.orEmpty fun key => (h.flowValue _ _ _).bind fun value =>
        (h.flowItems _ _ _).bind fun others => onlyMalformed_ok _
    · exact (h.node _ _ _).bind fun node =>
        (h.flowItems _ _ _).bind fun others => onlyMalformed_ok _

theorem flowValue_succ (h : ReadsTree fuel) (closing : Token) (names : Names)
    (tokens : List Token) : OnlyMalformed (readFlowValue (fuel + 1) closing names tokens) := by
  unfold readFlowValue
  split
  · exact (onlyMalformed_ok _).ite (h.node _ _ _)
  · exact onlyMalformed_ok _

theorem flowPairs_succ (h : ReadsTree fuel) (first : Bool) (names : Names) (tokens : List Token) :
    OnlyMalformed (readFlowPairs (fuel + 1) first names tokens) := by
  unfold readFlowPairs
  split
  · exact onlyMalformed_ok _
  · refine afterComma first _ fun tokens => ?_
    dsimp only
    split
    · exact onlyMalformed_ok _
    · exact h.orEmpty fun key => (h.flowValue _ _ _).bind fun value =>
        (h.flowPairs _ _ _).bind fun others => onlyMalformed_ok _
    · exact (h.node _ _ _).bind fun key =>
        (h.flowPairs _ _ _).bind fun others => onlyMalformed_ok _

theorem succ (h : ReadsTree fuel) : ReadsTree (fuel + 1) where
  node := h.node_succ
  blockItems := h.blockItems_succ
  indentless := h.indentless_succ
  blockPairs := h.blockPairs_succ
  flowItems := h.flowItems_succ
  flowValue := h.flowValue_succ
  flowPairs := h.flowPairs_succ

end ReadsTree

/-- The nodes that a node is made of, itself among them. -/
inductive PartOf (part : Node) : Node → Prop
  | self : PartOf part part
  | item {tag : Tag} {items : List Node} {node : Node} (hmem : node ∈ items)
      (h : PartOf part node) : PartOf part (.sequence tag items)
  | key {tag : Tag} {items : List (Node × Node)} {pair : Node × Node} (hmem : pair ∈ items)
      (h : PartOf part pair.1) : PartOf part (.mapping tag items)
  | value {tag : Tag} {items : List (Node × Node)} {pair : Node × Node} (hmem : pair ∈ items)
      (h : PartOf part pair.2) : PartOf part (.mapping tag items)

/-- A node whose text cannot be read as what its tag says. -/
inductive Unreadable (node : Node) (fault : Fault) : Prop
  | bool {content : List Char} (htag : node.tag = .bool) (htext : scalarText node = .ok content)
      (h : boolOf content = .error fault)
  | int {content : List Char} (htag : node.tag = .int) (htext : scalarText node = .ok content)
      (h : intOf content = .error fault)
  | float {content : List Char} (htag : node.tag = .float) (htext : scalarText node = .ok content)
      (h : floatOf content = .error fault)
  | timestamp {content : List Char} (htag : node.tag = .timestamp)
      (htext : scalarText node = .ok content) (h : timestampOf content = .error fault)

mutual

theorem onlyMalformed_scalarText : ∀ node, OnlyMalformed (scalarText node)
  | .scalar _ _ => onlyMalformed_ok _
  | .sequence _ _ => onlyMalformed_error
  | .mapping _ items => onlyMalformed_inItems items

theorem onlyMalformed_inItems : ∀ items, OnlyMalformed (scalarText.inItems items)
  | [] => onlyMalformed_error
  | (_, value) :: rest => (onlyMalformed_scalarText value).ite (onlyMalformed_inItems rest)

end

/-- Every fault that a part of the node can raise satisfies `E`. -/
def Accounts (E : Fault → Prop) (node : Node) : Prop :=
  ∀ part, PartOf part node → ∀ fault, scalarValue part = .error fault → E fault

/-- Every fault that a part of one of the pairs can raise satisfies `E`. -/
def AccountsPairs (E : Fault → Prop) (pairs : List (Node × Node)) : Prop :=
  ∀ pair ∈ pairs, Accounts E pair.1 ∧ Accounts E pair.2

namespace Accounts

variable {tag : Tag} {node : Node}

theorem items {items : List Node} (h : Accounts E (.sequence tag items)) :
    ∀ item ∈ items, Accounts E item := fun _ hitem part hpart =>
  h part (.item hitem hpart)

theorem pairs {items : List (Node × Node)} (h : Accounts E (.mapping tag items)) :
    AccountsPairs E items := fun _ hpair =>
  ⟨fun part hpart => h part (.key hpair hpart), fun part hpart => h part (.value hpair hpart)⟩

/-- A text can always be read. -/
theorem text (content : List Char) : Accounts E (.scalar .text content) := by
  intro part hpart fault hread
  cases hpart
  cases hread

end Accounts

/-! ## Loading -/

section

variable {node : Node} {pairs : List (Node × Node)}

end

end Folio.Data.Yaml
