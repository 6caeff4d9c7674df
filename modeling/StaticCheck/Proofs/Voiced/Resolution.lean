import StaticCheck.Proofs.Declarations
import StaticCheck.Proofs.Voiced.Calculus

/-!
# Types that resolve or are reported

Resolution aloud gives a type or reports an error: an alias is unfolded with one
definition less to go, and an alias that is met again while it is being unfolded
is reported.  Resolution in silence gives a type if every name in the type
stands for a type, whatever it stands for at the time.
-/

namespace StaticCheck

open Rule

variable {α : Type} {program : Program} {n : Nat} {view : View program}
    {span : Span}

def Symbol.TypedMember (symbol : Symbol) : Prop :=
  symbol.kind = .error ∨ symbol.kind = .enumVariant → symbol.ty.isSome = true

namespace Symbol.TypedMember

theorem placeless : Placeless Symbol.TypedMember := fun _ _ _ h => h

theorem of_kind {symbol : Symbol} (herror : symbol.kind ≠ .error)
    (hvariant : symbol.kind ≠ .enumVariant) : symbol.TypedMember := by
  rintro (hkind | hkind)
  · exact absurd hkind herror
  · exact absurd hkind hvariant

theorem declarable {limits : Limits} :
    Declarable limits Symbol.TypedMember where
  binding _ _ _ := of_kind nofun nofun
  constant _ _ _ := of_kind nofun nofun
  typeAlias _ _ _ _ _ := of_kind nofun nofun
  errorSet _ _ _ _ _ := of_kind nofun nofun
  errorMember _ _ _ := fun _ => rfl
  use _ _ _ := of_kind nofun nofun
  function _ _ _ _ := of_kind nofun nofun
  receiver _ _ _ := of_kind nofun nofun
  selfErr _ _ := fun _ => rfl
  param _ _ _ _ := of_kind nofun nofun
  type _ _ _ _ _ _ _ := of_kind nofun nofun
  field _ _ := of_kind nofun nofun
  variant _ _ _ _ := fun _ => rfl
  forBinding _ _ := of_kind nofun nofun
  catchBinding _ _ := of_kind nofun nofun

theorem of_tree (program : Program) (id : SymbolId) :
    (program.collect.tree.symbol id).TypedMember := by
  exact Collected.symbol declarable placeless (fun _ => of_kind nofun nofun) id

end Symbol.TypedMember

namespace Session.Sees

variable {s : Session}

theorem grounded (h : s.Sees view) {id : SymbolId}
    (hname : (program.collect.tree.symbol id).isTypeName = true) :
    (s.tree.symbol id).Grounded := by
  have hkind : (program.collect.tree.symbol id).kind ≠ .var := by
    intro hkind
    simp [Symbol.isTypeName, hkind] at hname
  exact h.tree.grounded (h.keeps id hkind) (Symbol.Grounded.of_tree program id)

theorem typed (h : s.Sees view) {id : SymbolId}
    (hvar : (program.collect.tree.symbol id).kind ≠ .var)
    (htyped : (program.collect.tree.symbol id).ty.isSome = true) :
    (s.tree.symbol id).ty.isSome = true := by
  obtain ⟨ty, hty⟩ := Option.isSome_iff_exists.mp htyped
  simp [h.keeps id hvar ty hty]

theorem typed_of_member (h : s.Sees view) {id : SymbolId}
    (hkind : (s.tree.symbol id).kind = .error ∨ (s.tree.symbol id).kind =
      .enumVariant) :
    (s.tree.symbol id).ty.isSome = true := by
  rw [(h.symbol id).kind_eq] at hkind
  apply h.typed
  · rcases hkind with hkind | hkind
    all_goals simp [hkind]
  · exact Symbol.TypedMember.of_tree program id hkind

end Session.Sees

/-!
## Names in types
-/

mutual

def Ty.names : Ty → List String
  | .prim _ | .errors _ | .enum _ | .struct ⟨_, _, some _⟩ => []
  | .struct ⟨_, members, none⟩ => Member.names members
  | .paren inner => inner.names
  | .pointer target _ => target.names
  | .optional inner => inner.names
  | .array element _ _ => element.names
  | .tuple fields => Ty.namesAll fields
  | .union members => Ty.namesAll members
  | .function params result error =>
    Ty.namesAll params ++ (result.names ++ Ty.namesOpt error)
  | .named name => [name]

def Ty.namesAll : List Ty → List String
  | [] => []
  | ty :: rest => ty.names ++ Ty.namesAll rest

def Ty.namesOpt : Option Ty → List String
  | none => []
  | some ty => ty.names

def Member.names : List Member → List String
  | [] => []
  | ⟨_, ty⟩ :: rest => ty.names ++ Member.names rest

end

mutual

theorem asked_resolveTy_of_names {loud : Bool} (ty : Ty)
    (hty : Meets program.standard ty)
    (hnames : ∀ name ∈ ty.names, Voiced n view (resolveNamed name span loud)) :
    Asked n view (resolveTy span loud ty) := by
  refine ⟨?_, Attested.resolveTy ty hty⟩
  cases ty with
  | prim | errors | enum => exact .answer _
  | named name => exact hnames name (.head _)
  | paren inner => exact (asked_resolveTy_of_names inner hty hnames).toVoiced
  | pointer target mutable =>
    exact (asked_resolveTy_of_names target hty hnames).bind .noAnswer
      fun _ _ => .answer _
  | optional inner =>
    exact (asked_resolveTy_of_names inner hty hnames).bind .noAnswer
      fun _ _ => .answer _
  | array element extent mutable =>
    obtain ⟨helement, hextent⟩ := (Ty.meets_array ..).mp hty
    refine (asked_resolveTy_of_names element helement hnames).bind .noAnswer
      fun element _ => ?_
    exact .after (.resolveExtent hextent) fun _ _ => .answer _
  | tuple fields =>
    have hfields := (Ty.meets_tuple _).mp hty
    exact (asked_resolveAll_of_names fields hfields hnames).bind .noAnswer
      fun _ _ => .answer _
  | union members =>
    have hmembers := (Ty.meets_union _).mp hty
    exact (asked_resolveAll_of_names members hmembers hnames).bind .noAnswer
      fun _ _ => .answer _
  | function params result error =>
    obtain ⟨hparams, hresult, herror⟩ := (Ty.meets_function ..).mp hty
    simp only [Ty.names, List.forall_mem_append] at hnames
    refine (asked_resolveAll_of_names params hparams hnames.1).bind .noAnswer
      fun params _ => ?_
    refine (asked_resolveTy_of_names result hresult hnames.2.1).bind .noAnswer
      fun result _ => ?_
    exact (asked_resolveOpt_of_names error herror hnames.2.2).bind .noAnswer
      fun _ _ => .answer _
  | struct struct =>
    obtain ⟨name, members, scope⟩ := struct
    cases scope with
    | some scope => exact .answer _
    | none =>
      have hmembers := (Ty.meets_struct _).mp hty
      have hresolved := asked_resolveMembers_of_names members hmembers hnames
      exact hresolved.bind .noAnswer fun _ _ => .answer _

theorem asked_resolveAll_of_names {loud : Bool} (tys : List Ty)
    (htys : Meets program.standard tys)
    (hnames : ∀ name ∈ Ty.namesAll tys,
      Voiced n view (resolveNamed name span loud)) :
    Asked n view (resolveAll span loud tys) := by
  refine ⟨?_, .resolveAll tys htys⟩
  cases tys with
  | nil => exact .answer []
  | cons ty rest =>
    rw [meets_cons] at htys
    simp only [Ty.namesAll, List.forall_mem_append] at hnames
    refine (asked_resolveTy_of_names ty htys.1 hnames.1).bind .noAnswer
      fun ty _ => ?_
    exact (asked_resolveAll_of_names rest htys.2 hnames.2).bind .noAnswer
      fun _ _ => .answer _

theorem asked_resolveOpt_of_names {loud : Bool} (ty : Option Ty)
    (hty : Meets program.standard ty)
    (hnames : ∀ name ∈ Ty.namesOpt ty,
      Voiced n view (resolveNamed name span loud)) :
    Asked n view (resolveOpt span loud ty) := by
  refine ⟨?_, .resolveOpt ty hty⟩
  cases ty with
  | none => exact .answer none
  | some ty =>
    have hmeets := meets_some.mp hty
    exact (asked_resolveTy_of_names ty hmeets hnames).bind .noAnswer
      fun _ _ => .answer _

theorem asked_resolveMembers_of_names {loud : Bool} (members : List Member)
    (hmembers : Meets program.standard members)
    (hnames : ∀ name ∈ Member.names members,
      Voiced n view (resolveNamed name span loud)) :
    Asked n view (resolveMembers span loud members) := by
  refine ⟨?_, .resolveMembers members hmembers⟩
  cases members with
  | nil => exact .answer []
  | cons member rest =>
    obtain ⟨name, ty⟩ := member
    rw [meets_cons] at hmembers
    simp only [Member.names, List.forall_mem_append] at hnames
    refine (asked_resolveTy_of_names ty hmembers.1 hnames.1).bind .noAnswer
      fun ty _ => ?_
    refine (asked_resolveMembers_of_names rest hmembers.2 hnames.2).bind
      .noAnswer ?_
    exact fun _ _ => .answer _

end

/-!
## What a name can stand for
-/

namespace ScopeTree

/-- The symbols that a name can stand for in a scope, at one time or another: a
local variable hides an outer symbol only once it is declared. -/
def meanings (tree : ScopeTree) (scope : ScopeId) (name : String) :
    List SymbolId :=
  (tree.chain scope).flatMap fun id =>
    ((tree.scope id).get? name).toList ++
      (tree.scope id).imports.filterMap (tree.importOffer? name)

variable {a b tree : ScopeTree} {scope : ScopeId} {name : String}
    {id : SymbolId}

theorem mem_meanings_of_lookupFrom (h : a.Grows b)
    (hfound : b.lookupFrom scope name = some id) :
    id ∈ a.meanings scope name := by
  obtain ⟨around, haround, hoffer⟩ := List.exists_of_findSome?_eq_some hfound
  rw [h.chain_eq] at haround
  refine List.mem_flatMap.mpr ⟨around, haround, List.mem_append.mpr ?_⟩
  simp only [offer?, h.scope_eq, h.importOffer?_eq,
    Option.or_eq_some_iff] at hoffer
  rcases hoffer with hown | ⟨-, himport⟩
  · left
    obtain ⟨hget, -⟩ := Option.filter_eq_some_iff.mp hown
    exact Option.mem_toList.mpr hget
  · right
    obtain ⟨target, htarget, hoffer⟩ := List.exists_of_findSome?_eq_some himport
    exact List.mem_filterMap.mpr ⟨target, htarget, hoffer⟩

theorem Tabled.index_lt_of_mem_meanings (h : tree.Tabled)
    (hid : id ∈ tree.meanings scope name) : id.index < tree.symbols.size := by
  obtain ⟨around, -, hmem⟩ := List.mem_flatMap.mp hid
  rcases List.mem_append.mp hmem with hown | himport
  · exact h.index_lt (Option.mem_toList.mp hown)
  · obtain ⟨target, -, hoffer⟩ := List.mem_filterMap.mp himport
    obtain ⟨hget, -⟩ := Option.filter_eq_some_iff.mp hoffer
    exact h.index_lt hget

theorem lookupFrom_isSome_of_grows (h : a.Grows b)
    (hsome : (a.lookupFrom scope name).isSome = true) :
    (b.lookupFrom scope name).isSome = true := by
  by_contra hnone
  rw [Bool.not_eq_true, Option.isSome_eq_false_iff,
    Option.isNone_iff_eq_none, lookupFrom, h.chain_eq,
    List.findSome?_eq_none_iff] at hnone
  have hbefore : a.lookupFrom scope name = none := by
    rw [lookupFrom, List.findSome?_eq_none_iff]
    exact fun around haround => h.offer?_eq_none (hnone around haround)
  rw [hbefore] at hsome
  cases hsome

/-- Whether a name stands for something at all times, and only for symbols of
the given kind. -/
def alwaysNames (tree : ScopeTree) (scope : ScopeId) (name : String)
    (p : SymbolId → Bool) : Bool :=
  (tree.lookupFrom scope name).isSome && (tree.meanings scope name).all p

/-- Whether a name resolves: it names a builtin type, or else all that it can
stand for denotes a type. -/
def resolvesName (tree : ScopeTree) (denotes : SymbolId → Bool)
    (scope : ScopeId) (name : String) : Bool :=
  match Builtin.type? name with
  | .ok (some _) => true
  | .ok none => tree.alwaysNames scope name denotes
  | .error _ => false

/-- Whether a symbol denotes a type while the given definitions are being
unfolded.  Aliases are followed for as long as the fuel lasts. -/
def denotesType (tree : ScopeTree) : Nat → List SymbolId → SymbolId → Bool
  | 0, _, _ => false
  | fuel + 1, unfolding, id =>
    let symbol := tree.symbol id
    if symbol.isTypeName then
      symbol.info.aliased.all fun ty => !unfolding.contains id && ty.names.all
        (tree.resolvesName
          (fun other => tree.denotesType fuel (id :: unfolding) other)
          symbol.scope)
    else symbol.kind == .error

/-- Whether a type resolves in a scope while the given definitions are being
unfolded. -/
def resolves (tree : ScopeTree) (fuel : Nat) (unfolding : List SymbolId)
    (scope : ScopeId) (ty : Ty) : Bool :=
  ty.names.all (tree.resolvesName (tree.denotesType fuel unfolding) scope)

end ScopeTree

theorem Session.Sees.lookup_of_alwaysNames {s : Session} (hs : s.Sees view)
    {name : String} {p : SymbolId → Bool}
    (hname : program.collect.tree.alwaysNames view.scope name p = true) :
    ∃ id, s.tree.lookup name = some id ∧ p id = true := by
  rw [ScopeTree.alwaysNames, Bool.and_eq_true, List.all_eq_true] at hname
  have hsome := ScopeTree.lookupFrom_isSome_of_grows hs.tree hname.1
  rw [← hs.current] at hsome
  obtain ⟨id, hid⟩ := Option.isSome_iff_exists.mp hsome
  have hmeaning := ScopeTree.mem_meanings_of_lookupFrom hs.tree hid
  rw [hs.current] at hmeaning
  exact ⟨id, hid, hname.2 id hmeaning⟩

theorem bind_lookup (name : String) (next : Option SymbolId → Rule α)
    (judge : Judge) (s : Session) :
    (lookup name >>= next) judge s = next (s.tree.lookup name) judge s := rfl

theorem Voiced.readLookup {name : String}
    {next : Option SymbolId → Rule (Option α)}
    (hnone : Voiced n view (next none))
    (hsome : ∀ id ∈ program.collect.tree.meanings view.scope name,
      Voiced n view (next (some id))) :
    Voiced n view (lookup name >>= next) where
  answers s hs hclean := by
    rw [bind_lookup] at hclean ⊢
    cases hfound : s.tree.lookup name with
    | none =>
      rw [hfound] at hclean
      exact hnone.answers s hs hclean
    | some id =>
      rw [hfound] at hclean
      have hmeaning : id ∈ program.collect.tree.meanings view.scope name := by
        rw [← hs.current]
        exact ScopeTree.mem_meanings_of_lookupFrom hs.tree hfound
      exact (hsome id hmeaning).answers s hs hclean

/-!
## Resolution
-/

theorem voiced_unfoldAlias {id : SymbolId} {name : String} {loud : Bool}
    (hname : (program.collect.tree.symbol id).isTypeName = true)
    (hbusy : ∀ aliased, (program.collect.tree.symbol id).info.aliased =
      some aliased → id ∈ view.unfolding → loud = true)
    (hbelow : ∀ aliased, (program.collect.tree.symbol id).info.aliased =
      some aliased → ∀ hnew : id ∉ view.unfolding,
        Voiced n
        ((view.unfold id (ScopeTree.symbol_known_of_isTypeName hname)
          hnew).enter (program.collect.tree.symbol id).scope)
          (resolveTy span loud aliased)) :
    Voiced (n + 1) view (unfoldAlias id name span loud) where
  answers s hs hclean := by
    apply answers_typedOnce hclean
    intro hnone hinner
    have hsymbol := hs.symbol id
    have hgrounded :=
      hs.grounded hname (by rw [hs.tree.isTypeName_eq]; exact hname)
    rw [hnone] at hgrounded
    cases haliased : (s.tree.symbol id).info.aliased with
    | none => exact absurd (hgrounded haliased) (by simp)
    | some aliased =>
      rw [haliased] at hinner
      dsimp only at hinner ⊢
      rw [bind_run, isUnfolding_run] at hinner ⊢
      rw [hsymbol.info_eq] at haliased
      by_cases hmem : id ∈ s.unfolding
      · rw [List.contains_iff_mem.mpr hmem,
          hbusy aliased haliased (hs.unfolding ▸ hmem)] at hinner
        exact (reported_not_clean hinner).elim
      · rw [Bool.eq_false_iff.mpr
          (mt List.contains_iff_mem.mp hmem)] at hinner ⊢
        have hnew : id ∉ view.unfolding := hs.unfolding ▸ hmem
        rw [hsymbol.scope_eq] at hinner ⊢
        have hinside :=
          (hs.unfold (ScopeTree.symbol_known_of_isTypeName hname) hnew).enter
          (program.collect.tree.symbol id).scope
        exact (hbelow aliased haliased hnew).answers _ hinside hinner

theorem voiced_resolveNamed {name : String} {loud : Bool}
    (denotes : SymbolId → Bool)
    (hname : loud = false →
      program.collect.tree.resolvesName denotes view.scope name = true)
    (halias : ∀ id, (program.collect.tree.symbol id).isTypeName = true →
      (loud = false → denotes id = true) → Voiced n view
      (unfoldAlias id name span loud))
    (hother : ∀ id, denotes id = true →
      (program.collect.tree.symbol id).isTypeName = false →
      (program.collect.tree.symbol id).kind = .error) :
    Voiced n view (resolveNamed name span loud) where
  answers s hs hclean := by
    unfold resolveNamed at hclean ⊢
    unfold ScopeTree.resolvesName at hname
    cases hbuiltin : Builtin.type? name with
    | error problem =>
      rw [hbuiltin] at hname hclean
      cases loud with
      | true => exact (reported_not_clean hclean).elim
      | false => exact absurd (hname rfl) (by simp)
    | ok answer =>
      cases answer with
      | some ty => rfl
      | none =>
        rw [hbuiltin] at hname hclean
        dsimp only at hname hclean ⊢
        rw [bind_lookup] at hclean ⊢
        cases hfound : s.tree.lookup name with
        | none =>
          rw [hfound] at hclean
          cases loud with
          | true => exact (reported_not_clean hclean).elim
          | false =>
            obtain ⟨id, hid, -⟩ := hs.lookup_of_alwaysNames (hname rfl)
            rw [hfound] at hid
            cases hid
        | some id =>
          rw [hfound] at hclean
          dsimp only at hclean ⊢
          rw [bind_symbol] at hclean ⊢
          have hdenotes : loud = false → denotes id = true := by
            intro hloud
            obtain ⟨other, hother, hdenotes⟩ :=
              hs.lookup_of_alwaysNames (hname hloud)
            rw [hfound] at hother
            cases hother
            exact hdenotes
          by_cases htype : (s.tree.symbol id).isTypeName = true
          · rw [if_pos htype] at hclean ⊢
            rw [hs.tree.isTypeName_eq] at htype
            exact (halias id htype hdenotes).answers s hs hclean
          · rw [if_neg htype] at hclean ⊢
            by_cases herror : ((s.tree.symbol id).kind == .error) = true
            · rw [if_pos herror]
              exact hs.typed_of_member (.inl (beq_iff_eq.mp herror))
            · rw [if_neg herror] at hclean
              cases loud with
              | true => exact (reported_not_clean hclean).elim
              | false =>
                rw [hs.tree.isTypeName_eq, Bool.not_eq_true] at htype
                rw [(hs.symbol id).kind_eq, beq_iff_eq] at herror
                exact absurd (hother id (hdenotes rfl) htype) herror

/-- Resolution aloud gives a type or reports an error, if the judge is deeper
than the number of definitions that are left to unfold. -/
theorem asked_resolveTy (hdepth : view.room < n) (ty : Ty)
    (hty : Meets program.standard ty) :
    Asked n view (resolveTy span true ty) := by
  induction n generalizing view ty with
  | zero => exact absurd hdepth (Nat.not_lt_zero _)
  | succ n ih =>
    apply asked_resolveTy_of_names ty hty
    intro name _
    refine voiced_resolveNamed (fun _ => false) (fun hloud => nomatch hloud) ?_
      fun _ hdenotes => nomatch hdenotes
    intro id hname _
    apply voiced_unfoldAlias hname fun _ _ _ => rfl
    intro aliased haliased hnew
    -- An alias is not unfolded inside of itself, so each one leaves less room
    -- than the last.
    have hknown := ScopeTree.symbol_known_of_isTypeName hname
    have hroom := View.room_unfold hknown hnew
    apply Asked.toVoiced
    refine ih ?_ aliased
      ((Symbol.suits_of_tree program id).aliased aliased haliased)
    show (view.unfold id hknown hnew).room < n
    omega

theorem asked_tryResolve {fuel : Nat} {ty : Ty}
    (hmeets : Meets program.standard ty)
    (hty : program.collect.tree.resolves fuel view.unfolding view.scope ty =
      true)
    (hdepth : view.room < n) : Asked n view (resolveTy span false ty) := by
  induction fuel generalizing n view ty with
  -- Without fuel nothing but a builtin name resolves.
  | zero =>
    apply asked_resolveTy_of_names ty hmeets
    intro name hname
    have hresolves := List.all_eq_true.mp hty name hname
    refine voiced_resolveNamed _ (fun _ => hresolves) ?_ fun _ hdenotes =>
      nomatch hdenotes
    intro id _ hdenotes
    exact nomatch hdenotes rfl
  | succ fuel ih =>
    obtain ⟨m, rfl⟩ : ∃ m, n = m + 1 := ⟨n - 1, by omega⟩
    apply asked_resolveTy_of_names ty hmeets
    intro name hname
    have hresolves := List.all_eq_true.mp hty name hname
    refine voiced_resolveNamed _ (fun _ => hresolves) ?_ ?_
    · intro id htype hdenotes
      have hdenotes := hdenotes rfl
      rw [ScopeTree.denotesType, if_pos htype] at hdenotes
      apply voiced_unfoldAlias htype
      · intro aliased haliased hbusy
        rw [haliased] at hdenotes
        simp [hbusy] at hdenotes
      · intro aliased haliased hnew
        rw [haliased, Option.all_some, Bool.and_eq_true] at hdenotes
        have hknown := ScopeTree.symbol_known_of_isTypeName htype
        have hroom := View.room_unfold hknown hnew
        apply Asked.toVoiced
        apply ih ((Symbol.suits_of_tree program id).aliased aliased haliased)
        · exact hdenotes.2
        · show (view.unfold id hknown hnew).room < m
          omega
    · intro id hdenotes htype
      rw [ScopeTree.denotesType, if_neg (by simp [htype])] at hdenotes
      exact beq_iff_eq.mp hdenotes

end StaticCheck
