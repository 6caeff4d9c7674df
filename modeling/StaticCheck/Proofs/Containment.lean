import StaticCheck.Proofs.Advance
import StaticCheck.Proofs.Collected
import StaticCheck.Proofs.Reachability

/-!
# Which definitions hold each other by value

`ScopeTree.Holds` relates a type definition to those that its declaration names
by value.  The search for cycles follows instead what is recorded of a
definition.  A cycle that the search for its root does not find runs through an
alias of which a struct or enum was recorded before.  Hence a cycle all of whose
definitions were searched without success, and none of which lost its type in
the meantime, runs through two different aliases of that kind.
-/

namespace StaticCheck

variable {id : SymbolId} {name : String} {tree : ScopeTree}

/-!
## Names held by value
-/

mutual

/-- The names that stand in a type outside of pointers, optionals, slices and
functions. -/
def Ty.heldNames : Ty → List String
  | .prim _ | .errors _ | .pointer .. | .optional _ | .function .. | .enum _ =>
    []
  | .paren inner => inner.heldNames
  | .array _ .slice _ => []
  | .array element _ _ => element.heldNames
  | .tuple fields => Ty.heldNamesAll fields
  | .union members => Ty.heldNamesAll members
  | .struct ⟨_, members, scope⟩ =>
    match scope with
    | some _ => []
    | none => Member.heldNamesAll members
  | .named name => [name]

def Ty.heldNamesAll : List Ty → List String
  | [] => []
  | ty :: rest => ty.heldNames ++ Ty.heldNamesAll rest

def Member.heldNamesAll : List Member → List String
  | [] => []
  | ⟨_, ty⟩ :: rest => ty.heldNames ++ Member.heldNamesAll rest

end

mutual

theorem Ty.hasParts_of_mem_heldNames (ty : Ty) (hname : name ∈ ty.heldNames) :
    Relation.ReflTransGen Ty.HasPart ty (.named name) := by
  cases ty with
  | prim _ | errors _ | pointer _ _ | optional _ | function _ _ _ | enum _ =>
    exact (List.not_mem_nil hname).elim
  | paren inner => exact .head .paren (inner.hasParts_of_mem_heldNames hname)
  | array element extent mutable =>
    cases extent with
    | slice => exact (List.not_mem_nil hname).elim
    | fixed _ | expr _ =>
      exact .head (.element (by simp)) (element.hasParts_of_mem_heldNames hname)
  | tuple fields =>
    obtain ⟨ty, hmem, hway⟩ := Ty.hasParts_of_mem_heldNamesAll fields hname
    exact .head (.field hmem) hway
  | union members =>
    obtain ⟨ty, hmem, hway⟩ := Ty.hasParts_of_mem_heldNamesAll members hname
    exact .head (.alternative hmem) hway
  | struct struct =>
    obtain ⟨structName, members, scope⟩ := struct
    cases scope with
    | some _ => exact (List.not_mem_nil hname).elim
    | none =>
      obtain ⟨member, hmem, hway⟩ :=
        Member.hasParts_of_mem_heldNamesAll members hname
      exact .head (.member rfl hmem) hway
  | named other =>
    cases List.mem_singleton.mp hname
    exact .refl

theorem Ty.hasParts_of_mem_heldNamesAll (tys : List Ty)
    (hname : name ∈ Ty.heldNamesAll tys) :
    ∃ ty ∈ tys, Relation.ReflTransGen Ty.HasPart ty (.named name) := by
  cases tys with
  | nil => exact (List.not_mem_nil hname).elim
  | cons ty rest =>
    rcases List.mem_append.mp hname with hty | hrest
    · exact ⟨ty, List.mem_cons_self, ty.hasParts_of_mem_heldNames hty⟩
    · obtain ⟨other, hmem, hway⟩ := Ty.hasParts_of_mem_heldNamesAll rest hrest
      exact ⟨other, List.mem_cons_of_mem ty hmem, hway⟩

theorem Member.hasParts_of_mem_heldNamesAll (members : List Member)
    (hname : name ∈ Member.heldNamesAll members) :
    ∃ member ∈ members, Relation.ReflTransGen Ty.HasPart member.ty
      (.named name) := by
  cases members with
  | nil => exact (List.not_mem_nil hname).elim
  | cons member rest =>
    obtain ⟨memberName, ty⟩ := member
    rcases List.mem_append.mp hname with hty | hrest
    · exact ⟨⟨memberName, ty⟩, List.mem_cons_self,
        ty.hasParts_of_mem_heldNames hty⟩
    · obtain ⟨other, hmem, hway⟩ :=
        Member.hasParts_of_mem_heldNamesAll rest hrest
      exact ⟨other, List.mem_cons_of_mem _ hmem, hway⟩

end

namespace Symbol

/-- The types that the declaration of a definition writes: those of its members
or payloads, or the one that it is an alias of. -/
def written (symbol : Symbol) : List Ty :=
  match symbol.info.aliased, symbol.ty with
  | some aliased, _ => [aliased]
  | none, some (.struct struct) => struct.members.map (·.ty)
  | none, some (.enum enum) => enum.variants.filterMap (·.payload)
  | none, _ => []

/-- Whether the symbol is an alias of which a struct or enum has been recorded.
The search then follows the members of what was recorded instead of the alias as
written. -/
def isRecordedAlias (symbol : Symbol) : Bool :=
  symbol.info.aliased.isSome &&
    match symbol.ty with
    | some (.struct _) | some (.enum _) => true
    | _ => false

theorem kind_ne_var {symbol : Symbol} (h : symbol.isTypeName = true) :
    symbol.kind ≠ .var := by
  simp only [isTypeName, Bool.and_eq_true, beq_iff_eq] at h
  simp [h.1]

theorem contents_eq_written {symbol : Symbol}
    (hplain : symbol.isRecordedAlias = false) :
    symbol.contents = symbol.written := by
  unfold isRecordedAlias at hplain
  unfold contents written
  cases halias : symbol.info.aliased with
  | none =>
    cases symbol.ty with
    | none => rfl
    | some ty => cases ty <;> rfl
  | some aliased =>
    cases hty : symbol.ty with
    | none => rfl
    | some ty =>
      rw [halias, hty] at hplain
      cases ty with
      | struct _ | enum _ => cases hplain
      | _ => rfl

end Symbol

/-- The definition `x` names the definition `y` by value, read in the scope of
`x`. -/
def ScopeTree.Holds (tree : ScopeTree) (x y : SymbolId) : Prop :=
  (tree.symbol x).isTypeName = true ∧ (tree.symbol y).isTypeName = true ∧
    ∃ ty ∈ (tree.symbol x).written, ∃ name ∈ ty.heldNames,
      tree.lookupFrom (tree.symbol x).innerScope name = some y

instance (tree : ScopeTree) (x y : SymbolId) : Decidable (tree.Holds x y) :=
  inferInstanceAs
    (Decidable (_ ∧ _ ∧ ∃ ty ∈ (tree.symbol x).written, ∃ name ∈ ty.heldNames,
      tree.lookupFrom (tree.symbol x).innerScope name = some y))

/-!
## Looking up at a later time
-/

structure ScopeTree.Grows (a b : ScopeTree) : Prop where
  scopes : b.scopes = a.scopes
  nodes : b.nodes = a.nodes
  size : b.symbols.size = a.symbols.size
  symbols : ∀ id, (a.symbol id).Advances (b.symbol id)

def ScopeTree.KeepsType (a b : ScopeTree) (id : SymbolId) : Prop :=
  ∀ ty, (a.symbol id).ty = some ty → (b.symbol id).ty = some ty

namespace ScopeTree

variable {a b c : ScopeTree}

theorem Advances.grows (h : a.Advances b) : a.Grows b where
  scopes := h.scopes
  nodes := h.nodes
  size := h.size
  symbols := h.symbols

namespace Grows

theorem refl (tree : ScopeTree) : tree.Grows tree := (Advances.refl tree).grows

theorem trans (hab : a.Grows b) (hbc : b.Grows c) : a.Grows c where
  scopes := hbc.scopes.trans hab.scopes
  nodes := hbc.nodes.trans hab.nodes
  size := hbc.size.trans hab.size
  symbols id := (hab.symbols id).trans (hbc.symbols id)

theorem scope_eq (h : a.Grows b) (id : ScopeId) : b.scope id = a.scope id := by
  simp only [scope, h.scopes]

theorem chain_eq (h : a.Grows b) (id : ScopeId) : b.chain id = a.chain id := by
  have hclimb : ∀ steps id, b.climb steps id = a.climb steps id := by
    intro steps
    induction steps with
    | zero => exact fun _ => rfl
    | succ steps ih => simp [climb, parent?, h.scope_eq, ih]
  exact hclimb _ id

theorem nodeScope?_eq (h : a.Grows b) (node : NodeId) :
    b.nodeScope? node = a.nodeScope? node := by
  simp only [nodeScope?, h.nodes]

theorem lookupLocal_eq (h : a.Grows b) (id : ScopeId) (name : String) :
    b.lookupLocal id name = a.lookupLocal id name := by
  simp only [lookupLocal, h.scope_eq]

theorem isTypeName_eq (h : a.Grows b) (id : SymbolId) :
    (b.symbol id).isTypeName = (a.symbol id).isTypeName := by
  simp only [Symbol.isTypeName, (h.symbols id).kind_eq, (h.symbols id).info_eq]

theorem innerScope_eq (h : a.Grows b) (id : SymbolId) :
    (b.symbol id).innerScope = (a.symbol id).innerScope := by
  simp only [Symbol.innerScope, (h.symbols id).info_eq, (h.symbols id).scope_eq]

theorem isRecordedAlias (h : a.Grows b) (hkeeps : a.KeepsType b id)
    (hplain : (b.symbol id).isRecordedAlias = false) :
    (a.symbol id).isRecordedAlias = false := by
  have hsymbol := h.symbols id
  unfold Symbol.isRecordedAlias at hplain ⊢
  rw [hsymbol.info_eq] at hplain
  cases hty : (a.symbol id).ty with
  | none => simp
  | some ty =>
    rw [hkeeps ty hty] at hplain
    exact hplain

theorem written_eq (h : a.Grows b) (hkeeps : a.KeepsType b id)
    (hgrounded : (a.symbol id).Grounded)
    (hname : (a.symbol id).isTypeName = true) :
    (b.symbol id).written = (a.symbol id).written := by
  have hsymbol := h.symbols id
  unfold Symbol.written
  rw [hsymbol.info_eq]
  cases halias : (a.symbol id).info.aliased with
  | some aliased => rfl
  | none =>
    obtain ⟨ty, hty⟩ := Option.isSome_iff_exists.mp (hgrounded hname halias)
    rw [hty, hkeeps ty hty]

theorem grounded (h : a.Grows b) (hkeeps : a.KeepsType b id)
    (hgrounded : (a.symbol id).Grounded) : (b.symbol id).Grounded := by
  intro hname halias
  rw [h.isTypeName_eq] at hname
  rw [(h.symbols id).info_eq] at halias
  obtain ⟨ty, hty⟩ := Option.isSome_iff_exists.mp (hgrounded hname halias)
  rw [hkeeps ty hty]
  rfl

theorem importOffer?_eq (h : a.Grows b) (name : String) :
    b.importOffer? name = a.importOffer? name := by
  funext target
  simp only [importOffer?, Symbol.isPublic, h.scope_eq,
    (h.symbols _).visibility_eq]

theorem isPending_of_isPending (h : a.Grows b) {scope : Scope}
    (hpending : b.isPending scope id = true) : a.isPending scope id = true := by
  have hsymbol := h.symbols id
  simp only [isPending, hsymbol.kind_eq, Bool.and_eq_true,
    Bool.not_eq_true'] at hpending ⊢
  refine ⟨hpending.1, Bool.eq_false_iff.mpr fun hdeclared => ?_⟩
  rw [hsymbol.declared hdeclared] at hpending
  cases hpending.2

theorem ownOffer?_eq_none (h : a.Grows b) {scope : Scope}
    (hnone : b.ownOffer? scope name = none) :
    a.ownOffer? scope name = none := by
  simp only [ownOffer?, Option.filter_eq_none_iff, Bool.not_eq_true',
    Bool.not_eq_false] at hnone ⊢
  exact fun id hid => h.isPending_of_isPending (hnone id hid)

theorem offer?_eq_none (h : a.Grows b) {id : ScopeId}
    (hnone : b.offer? name id = none) : a.offer? name id = none := by
  simp only [offer?, h.scope_eq, h.importOffer?_eq,
    Option.or_eq_none_iff] at hnone ⊢
  exact ⟨h.ownOffer?_eq_none hnone.1, hnone.2⟩

theorem offer?_eq_some (h : a.Grows b) {id : ScopeId} {found : SymbolId}
    (hkind : (b.symbol found).kind ≠ .var)
    (hfound : b.offer? name id = some found) :
    a.offer? name id = some found := by
  simp only [offer?, h.scope_eq, h.importOffer?_eq,
    Option.or_eq_some_iff] at hfound ⊢
  refine hfound.imp (fun hown => ?_) fun himport =>
    ⟨h.ownOffer?_eq_none himport.1, himport.2⟩
  obtain ⟨hget, -⟩ := Option.filter_eq_some_iff.mp hown
  refine Option.filter_eq_some_iff.mpr ⟨hget, ?_⟩
  rw [(h.symbols found).kind_eq] at hkind
  simp [isPending, hkind]

theorem lookupFrom_eq_some (h : a.Grows b) {scope : ScopeId} {found : SymbolId}
    (hkind : (b.symbol found).kind ≠ .var)
    (hfound : b.lookupFrom scope name = some found) :
    a.lookupFrom scope name = some found := by
  unfold lookupFrom at hfound ⊢
  rw [h.chain_eq] at hfound
  generalize a.chain scope = scopes at hfound ⊢
  induction scopes with
  | nil => cases hfound
  | cons id rest ih =>
    rw [List.findSome?_cons] at hfound ⊢
    cases hoffer : b.offer? name id with
    | none =>
      rw [hoffer] at hfound
      rw [h.offer?_eq_none hoffer]
      exact ih hfound
    | some other =>
      rw [hoffer] at hfound
      cases hfound
      rw [h.offer?_eq_some hkind hoffer]

end Grows

/-!
## Cycles that no search finds
-/

def Follows (tree : ScopeTree) (x y : SymbolId) : Prop :=
  (tree.symbol x).isTypeName = true ∧
    ∃ ty ∈ (tree.symbol x).contents, ∃ name ∈ ty.heldNames,
      tree.lookupFrom (tree.symbol x).innerScope name = some y

theorem holdsPlace_of_mem_heldNames (tree : ScopeTree)
    (scope : ScopeId) {ty : Ty} (hname : name ∈ ty.heldNames) :
    Relation.ReflTransGen tree.HoldsPlace (scope, ty) (scope, .named name) := by
  exact (ty.hasParts_of_mem_heldNames hname).lift (scope, ·) fun _ _ => .part

theorem contains_of_follows {start root : SymbolId} {scope : ScopeId}
    (hway : Relation.ReflTransGen tree.Follows start root)
    (hstart : tree.lookupFrom scope name = some start) :
    tree.Contains root scope (.named name) := by
  induction hway using Relation.ReflTransGen.head_induction_on generalizing
    scope name with
  | refl => exact ⟨_, .refl, .name hstart⟩
  | head hstep _ ih =>
    obtain ⟨hname, ty, hty, held, hheld, hnext⟩ := hstep
    obtain ⟨place, hrest, hroot⟩ := ih hnext
    have hopens := Symbol.mem_contents_iff.mp hty
    refine ⟨place, .head (.definition (.intro hstart hname hopens)) ?_, hroot⟩
    exact (tree.holdsPlace_of_mem_heldNames _ hheld).trans hrest

/-- If `id` is a type definition, then at some time each type that its
declaration writes was searched for it in vain.  Certain symbols kept their
types before and after. -/
def Cleared (kept : SymbolId → Prop) (first last : ScopeTree) (id : SymbolId) :
    Prop :=
  (last.symbol id).isTypeName = true → ∀ ty ∈ (last.symbol id).written,
    ∃ tree : ScopeTree, first.Grows tree ∧ tree.Grows last ∧
      (∀ other, kept other → first.KeepsType tree other ∧
        tree.KeepsType last other) ∧
      tree.contains id [] (last.symbol id).innerScope ty = false

variable {first tree last : ScopeTree} {kept : SymbolId → Prop}

theorem Cleared.mono {fewer : SymbolId → Prop} (h : Cleared kept first last id)
    (hfewer : ∀ other, fewer other → kept other) :
    Cleared fewer first last id := by
  intro htype ty hty
  obtain ⟨tree, hfirst, hlast, hkeeps, hnone⟩ := h htype ty hty
  exact ⟨tree, hfirst, hlast, fun other hother =>
    hkeeps other (hfewer other hother), hnone⟩

theorem Holds.follows (hgrounded : ∀ id, (first.symbol id).Grounded)
    (hfirst : first.Grows tree) (hlast : tree.Grows last) {x y : SymbolId}
    (hkeeps : first.KeepsType tree x ∧ tree.KeepsType last x)
    (h : last.Holds x y)
    (hplain : (last.symbol x).isRecordedAlias = false) : tree.Follows x y := by
  obtain ⟨hx, hy, ty, hty, name, hname, hfound⟩ := h
  rw [hlast.isTypeName_eq] at hx
  refine ⟨hx, ty, ?_, name, hname, ?_⟩
  · rw [Symbol.contents_eq_written (hlast.isRecordedAlias hkeeps.2 hplain)]
    rwa [← hlast.written_eq hkeeps.2 (hfirst.grounded hkeeps.1 (hgrounded x))
      hx]
  · rw [← hlast.innerScope_eq]
    exact hlast.lookupFrom_eq_some (Symbol.kind_ne_var hy) hfound

/-- A definition that was searched in vain is on no cycle whose other
definitions the search follows as written. -/
theorem Cleared.not_on_cycle (hgrounded : ∀ id, (first.symbol id).Grounded)
    (hcleared : Cleared kept first last id) :
    ¬Relation.TransGen (fun x y => kept x ∧
      (x = id ∨ (last.symbol x).isRecordedAlias = false) ∧ last.Holds x y) id
      id := by
  intro hcycle
  obtain ⟨start, ⟨-, -, hx, hy, ty, hty, name, hname, hfound⟩, hrest⟩ :=
    Relation.TransGen.head'_iff.mp hcycle
  obtain ⟨tree, hfirst, hlast, hkeeps, hclear⟩ := hcleared hx ty hty
  have hway : Relation.ReflTransGen tree.Follows start id := by
    clear hy hfound
    induction hrest using Relation.ReflTransGen.head_induction_on with
    | refl => exact .refl
    | @head x y hstep _ ih =>
      -- A way that comes to `id` again has reached its end.
      obtain ⟨hkept, rfl | hplain, hholds⟩ := hstep
      · exact .refl
      · exact .head
          (hholds.follows hgrounded hfirst hlast (hkeeps x hkept) hplain) ih
  have hstart := hlast.lookupFrom_eq_some (Symbol.kind_ne_var hy) hfound
  obtain ⟨place, hrest, hroot⟩ := contains_of_follows hway hstart
  rw [contains_iff.mpr
    ⟨place, (tree.holdsPlace_of_mem_heldNames _ hname).trans hrest, hroot⟩]
    at hclear
  cases hclear

theorem cycle_through_cycles {r : SymbolId → SymbolId → Prop}
    (hcycle : Relation.TransGen r id id) :
    Relation.TransGen (fun x y => Relation.TransGen r x x ∧ r x y) id id := by
  suffices hway : ∀ y, Relation.TransGen r id y → Relation.ReflTransGen r y id →
      Relation.TransGen (fun x y => Relation.TransGen r x x ∧ r x y) id y from
    hway id hcycle .refl
  intro y hy
  induction hy with
  | single hstep => exact fun hback => .single ⟨.head' hstep hback, hstep⟩
  | tail hway hstep ih =>
    intro hback
    exact (ih (.head hstep hback)).tail
      ⟨.trans (.head' hstep hback) hway, hstep⟩

theorem not_on_cycle_of_cleared (hgrounded : ∀ id, (first.symbol id).Grounded)
    {through : SymbolId → Prop}
    (hcleared : ∀ id, through id → Cleared through first last id)
    (hsingle : ∀ p q, through p → through q →
      (last.symbol p).isRecordedAlias = true →
      (last.symbol q).isRecordedAlias = true → p = q) (id : SymbolId) :
    ¬Relation.TransGen (fun x y => through x ∧ last.Holds x y) id id := by
  intro hcycle
  have hthrough :
      ∀ x, Relation.TransGen (fun x y => through x ∧ last.Holds x y) x x →
      through x := by
    intro x hx
    obtain ⟨y, ⟨hthrough, -⟩, -⟩ := Relation.TransGen.head'_iff.mp hx
    exact hthrough
  -- The search starts at the one recorded alias on a cycle, or anywhere if
  -- there is none.
  by_cases hany : ∃ p, (last.symbol p).isRecordedAlias = true ∧
      Relation.TransGen (fun x y => through x ∧ last.Holds x y) p p
  · obtain ⟨p, hrecorded, hp⟩ := hany
    refine (hcleared p (hthrough p hp)).not_on_cycle hgrounded
      (Relation.TransGen.mono ?_ p p hp)
    rintro x y ⟨hx, hholds⟩
    refine ⟨hx, ?_, hholds⟩
    cases hplain : (last.symbol x).isRecordedAlias with
    | false => exact .inr rfl
    | true => exact .inl (hsingle x p hx (hthrough p hp) hplain hrecorded)
  · refine (hcleared id (hthrough id hcycle)).not_on_cycle hgrounded
      (Relation.TransGen.mono ?_ id id (cycle_through_cycles hcycle))
    rintro x y ⟨hx, hthrough, hholds⟩
    refine ⟨hthrough, .inr (Bool.eq_false_iff.mpr fun hrecorded => ?_), hholds⟩
    exact hany ⟨x, hrecorded, hx⟩

end ScopeTree

end StaticCheck
