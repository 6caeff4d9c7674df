import StaticCheck.Proofs.Certificate
import StaticCheck.Proofs.Reachability

/-!
# Reading types

Silent resolution, also that for layout, and comparison read types.  On the
way they come to array lengths and names, from a name to the symbol that it
denotes, and from the symbol to other types and to the scope of their names.
What is known of all these things and of all sessions on the way is followed
here through the rules.  With it two judges are compared: a rule that asks
them for nothing in which they differ has the same run over both.
-/

namespace StaticCheck

open Rule

/-!
## What stands in a type
-/

/-- What reading a type comes to. -/
inductive Leaf
  | length (expr : Expr)
  | name (name : String)
  | symbol (id : SymbolId)
  | home (scope : ScopeId)

def Extent.leaves : Extent → List Leaf
  | .expr length => [.length length]
  | .slice | .fixed _ => []

mutual

/-- What stands in a type.  Only a deep look comes to the members of declared
structs and to the payloads of enums. -/
def Ty.leaves (deep : Bool) : Ty → List Leaf
  | .prim _ | .errors _ => []
  | .named name => [.name name]
  | .paren inner | .optional inner | .pointer inner _ => inner.leaves deep
  | .array element extent _ => element.leaves deep ++ extent.leaves
  | .tuple items | .union items => Ty.leavesAll deep items
  | .struct ⟨_, members, none⟩ => Member.leavesAll deep members
  | .struct ⟨_, members, some scope⟩ =>
    if deep then .home scope :: Member.leavesAll deep members else []
  | .enum ⟨_, variants, scope⟩ =>
    if deep then scope.toList.map .home ++ Variant.leavesAll deep variants
    else []
  | .function params result error =>
    Ty.leavesAll deep params ++ (result.leaves deep ++ Ty.leavesOpt deep error)

def Ty.leavesAll (deep : Bool) : List Ty → List Leaf
  | [] => []
  | ty :: rest => ty.leaves deep ++ Ty.leavesAll deep rest

def Ty.leavesOpt (deep : Bool) : Option Ty → List Leaf
  | none => []
  | some ty => ty.leaves deep

def Member.leavesAll (deep : Bool) : List Member → List Leaf
  | [] => []
  | ⟨_, ty⟩ :: rest => ty.leaves deep ++ Member.leavesAll deep rest

def Variant.leavesAll (deep : Bool) : List Variant → List Leaf
  | [] => []
  | ⟨_, payload⟩ :: rest =>
    Ty.leavesOpt deep payload ++ Variant.leavesAll deep rest

end

mutual

theorem Ty.leaves_stripParens (deep : Bool) (ty : Ty) :
    ty.stripParens.leaves deep = ty.leaves deep := by
  cases ty with
  | paren inner | pointer inner | optional inner =>
    exact leaves_stripParens deep inner
  | array element extent =>
    exact congrArg (· ++ extent.leaves) (leaves_stripParens deep element)
  | tuple items | union items => exact leavesAll_stripParensAll deep items
  | _ => rfl

theorem Ty.leavesAll_stripParensAll (deep : Bool) (tys : List Ty) :
    leavesAll deep (stripParensAll tys) = leavesAll deep tys := by
  cases tys with
  | nil => rfl
  | cons ty rest =>
    rw [stripParensAll, leavesAll, leavesAll, leaves_stripParens deep ty,
      leavesAll_stripParensAll deep rest]

end

def Symbol.isNamed (symbol : Symbol) : Bool :=
  symbol.isTypeName || symbol.kind == .error

theorem ScopeTree.symbol_known_of_isNamed {tree : ScopeTree} {id : SymbolId}
    (h : (tree.symbol id).isNamed = true) : id.index < tree.symbols.size := by
  by_contra hsize
  have hnone : tree.symbols[id.index]? = none :=
    Array.getElem?_eq_none (Nat.le_of_not_lt hsize)
  simp [symbol, hnone, Symbol.isNamed, Symbol.isTypeName] at h

def WhenSome {α : Type} (post : α → Prop) (answer : Option α) : Prop :=
  ∀ a ∈ answer, post a

/-!
## Readings
-/

/-- Sessions and things to which a reading comes, and two judges that are
asked on the way. -/
structure Reading where
  judge : Judge
  twin : Judge
  deep : Bool
  Admits : Session → Prop
  Holds : Leaf → Prop
  current : ∀ {s : Session}, Admits s → Holds (.home s.tree.current)
  enter : ∀ {s : Session} {scope : ScopeId}, Admits s → Holds (.home scope) →
    Admits { s with tree := s.tree.enter scope }
  found : ∀ {s : Session} {name : String} {id : SymbolId}, Admits s →
    Holds (.name name) → s.tree.lookup name = some id →
    (s.tree.symbol id).isNamed = true → Holds (.symbol id)
  scope : ∀ {s : Session} {id : SymbolId}, Admits s → Holds (.symbol id) →
    Holds (.home (s.tree.symbol id).scope)
  recorded : ∀ {s : Session} {id : SymbolId} {ty : Ty} {leaf : Leaf},
    Admits s → Holds (.symbol id) → (s.tree.symbol id).ty = some ty →
    leaf ∈ ty.leaves deep → Holds leaf
  aliased : ∀ {s : Session} {id : SymbolId} {ty : Ty} {leaf : Leaf},
    Admits s → Holds (.symbol id) →
    (s.tree.symbol id).info.aliased = some ty →
    leaf ∈ ty.leaves deep → Holds leaf
  record : ∀ {s : Session} {id : SymbolId} {ty : Ty}, Admits s →
    Holds (.symbol id) → (∀ leaf ∈ ty.leaves deep, Holds leaf) →
    Admits { s with
      tree := s.tree.updateSymbol id fun symbol =>
        { symbol with ty := some ty } }

namespace Reading

variable (reading : Reading)

def Reads (ty : Ty) :
    Prop := ∀ leaf ∈ ty.leaves reading.deep, reading.Holds leaf

variable {reading}

theorem reads_array {element : Ty} {extent : Extent} {mutable : Bool} :
    reading.Reads (.array element extent mutable) ↔
      reading.Reads element ∧ ∀ leaf ∈ extent.leaves, reading.Holds leaf := by
  exact List.forall_mem_append

theorem reads_all {items : List Ty} :
    (∀ leaf ∈ Ty.leavesAll reading.deep items, reading.Holds leaf) ↔
      ∀ ty ∈ items, reading.Reads ty := by
  induction items with
  | nil => exact iff_of_true (List.forall_mem_nil _) (List.forall_mem_nil _)
  | cons ty rest ih =>
    rw [Ty.leavesAll, List.forall_mem_append, List.forall_mem_cons, ih, Reads]

theorem reads_opt {ty : Option Ty} :
    (∀ leaf ∈ Ty.leavesOpt reading.deep ty, reading.Holds leaf) ↔
      WhenSome reading.Reads ty := by
  cases ty with
  | none =>
    exact iff_of_true (List.forall_mem_nil _)
      fun _ h => absurd h (Option.not_mem_none _)
  | some ty =>
    exact ⟨fun h _ hmem => Option.mem_some.mp hmem ▸ h, fun h => h ty rfl⟩

theorem reads_function {params : List Ty} {result : Ty} {error : Option Ty} :
    reading.Reads (.function params result error) ↔
      (∀ ty ∈ params, reading.Reads ty) ∧ reading.Reads result ∧
        WhenSome reading.Reads error := by
  rw [Reads, Ty.leaves, List.forall_mem_append, List.forall_mem_append,
    reads_all, reads_opt, Reads]

theorem reads_members {members : List Member} :
    (∀ leaf ∈ Member.leavesAll reading.deep members, reading.Holds leaf) ↔
      ∀ member ∈ members, reading.Reads member.ty := by
  induction members with
  | nil => exact iff_of_true (List.forall_mem_nil _) (List.forall_mem_nil _)
  | cons member rest ih =>
    obtain ⟨name, ty⟩ := member
    rw [Member.leavesAll, List.forall_mem_append, List.forall_mem_cons, ih,
      Reads]

theorem reads_variants {variants : List Variant} :
    (∀ leaf ∈ Variant.leavesAll reading.deep variants, reading.Holds leaf) ↔
      ∀ variant ∈ variants, WhenSome reading.Reads variant.payload := by
  induction variants with
  | nil => exact iff_of_true (List.forall_mem_nil _) (List.forall_mem_nil _)
  | cons variant rest ih =>
    obtain ⟨name, payload⟩ := variant
    rw [Variant.leavesAll, List.forall_mem_append, List.forall_mem_cons, ih,
      reads_opt]

theorem reads_struct {struct : StructTy} (hdeep : reading.deep = true)
    (h : reading.Reads (.struct struct)) :
    WhenSome (fun scope => reading.Holds (.home scope)) struct.scope ∧
      ∀ member ∈ struct.members, reading.Reads member.ty := by
  obtain ⟨name, members, scope⟩ := struct
  cases scope with
  | none =>
    exact ⟨fun _ hmem => absurd hmem (Option.not_mem_none _),
      reads_members.mp h⟩
  | some scope =>
    rw [Reads, Ty.leaves, if_pos hdeep, List.forall_mem_cons] at h
    exact ⟨fun _ hmem => Option.mem_some.mp hmem ▸ h.1, reads_members.mp h.2⟩

theorem reads_enum {enum : EnumTy} (hdeep : reading.deep = true)
    (h : reading.Reads (.enum enum)) :
    WhenSome (fun scope => reading.Holds (.home scope)) enum.scope ∧
      ∀ variant ∈ enum.variants, WhenSome reading.Reads variant.payload := by
  obtain ⟨name, variants, scope⟩ := enum
  rw [Reads, Ty.leaves, if_pos hdeep, List.forall_mem_append] at h
  refine ⟨fun scope hmem => h.1 _ ?_, reads_variants.mp h.2⟩
  exact List.mem_map_of_mem (Option.mem_toList.mpr hmem)

end Reading

open Reading

/-!
## Rules and where they lead
-/

variable {α β : Type}

/-- From the session the rule leads to a session of the reading, with an
answer that has the property, over one judge as over the other. -/
structure Leads (reading : Reading) (post : α → Prop) (rule : Rule α)
    (s : Session) : Prop where
  session : reading.Admits (rule reading.judge s).2
  answer : post (rule reading.judge s).1
  same : rule reading.twin s = rule reading.judge s

def Finds (reading : Reading) (post : α → Prop) (rule : Rule α) : Prop :=
  ∀ s, reading.Admits s → Leads reading post rule s

abbrev Hears (reading : Reading) (rule : Rule α) : Prop :=
  Finds reading (fun _ => True) rule

namespace Leads

variable {reading : Reading} {post : α → Prop} {last : β → Prop}
  {rule : Rule α} {s : Session}

theorem ask {next : α → Rule β} {a : α} (hrule : ∀ judge, rule judge s = (a, s))
    (hnext : Leads reading last (next a) s) :
    Leads reading last (rule >>= next) s := by
  have hrun : ∀ judge, (rule >>= next) judge s = next a judge s := by
    intro judge
    rw [bind_run, hrule]
  refine ⟨?_, ?_, ?_⟩
  · rw [hrun]
    exact hnext.session
  · rw [hrun]
    exact hnext.answer
  · rw [hrun, hrun]
    exact hnext.same

theorem bind {next : α → Rule β} (hrule : Leads reading post rule s)
    (hnext : ∀ a, post a → Finds reading last (next a)) :
    Leads reading last (rule >>= next) s := by
  obtain ⟨ht, ha, hsame⟩ := hrule
  obtain ⟨hu, hb, hlater⟩ := hnext _ ha _ ht
  refine ⟨hu, hb, ?_⟩
  rw [bind_run, bind_run, hsame]
  exact hlater

theorem bindOption {rule : Rule (Option α)} {next : Option α → Rule β}
    (hrule : Leads reading (WhenSome post) rule s)
    (hnone : Finds reading last (next none))
    (hsome : ∀ a, post a → Finds reading last (next (some a))) :
    Leads reading last (rule >>= next) s := by
  refine hrule.bind fun answer hanswer => ?_
  cases answer with
  | none => exact hnone
  | some a => exact hsome a (hanswer a rfl)

end Leads

namespace Finds

variable {reading : Reading} {post : α → Prop} {last : β → Prop}
  {rule : Rule α}

theorem pure {a : α} (ha : post a) : Finds reading post (Pure.pure a) :=
  fun _ hs => ⟨hs, ha, rfl⟩

theorem giveUp : Finds reading (WhenSome post) (Pure.pure none) := by
  exact .pure fun _ hmem => absurd hmem (Option.not_mem_none _)

theorem found {a : α} (ha : post a) :
    Finds reading (WhenSome post) (Pure.pure (some a)) := by
  exact .pure fun _ hmem => Option.mem_some.mp hmem ▸ ha

theorem bind {next : α → Rule β} (hrule : Finds reading post rule)
    (hnext : ∀ a, post a → Finds reading last (next a)) :
    Finds reading last (rule >>= next) := by
  intro s hs
  exact (hrule s hs).bind hnext

theorem bindOption {rule : Rule (Option α)} {next : Option α → Rule β}
    (hrule : Finds reading (WhenSome post) rule)
    (hnone : Finds reading last (next none))
    (hsome : ∀ a, post a → Finds reading last (next (some a))) :
    Finds reading last (rule >>= next) := by
  intro s hs
  exact (hrule s hs).bindOption hnone hsome

theorem ite {c : Prop} [Decidable c] {yes no : Rule α}
    (hyes : Finds reading post yes) (hno : Finds reading post no) :
    Finds reading post (if c then yes else no) := by
  split
  · exact hyes
  · exact hno

theorem withScope {scope : ScopeId} (hscope : reading.Holds (.home scope))
    (hrule : Finds reading post rule) :
    Finds reading post (withScope scope rule) := by
  intro s hs
  obtain ⟨ht, ha, hsame⟩ := hrule _ (reading.enter hs hscope)
  refine ⟨reading.enter ht (reading.current hs), ha, ?_⟩
  exact congrArg (fun run : α × Session =>
    (run.1, { run.2 with tree := run.2.tree.enter s.tree.current })) hsame

theorem forEach {rule : α → Rule Unit} (h : ∀ a, Hears reading (rule a))
    (items : List α) : Hears reading (forEach rule items) := by
  induction items with
  | nil => exact .pure trivial
  | cons a rest ih => exact .bind (h a) fun _ _ => ih

theorem mapSome {rule : α → Rule (Option β)} {items : List α}
    (h : ∀ a ∈ items, Finds reading (WhenSome fun _ => True) (rule a)) :
    Finds reading (WhenSome fun _ => True) (mapSome rule items) := by
  induction items with
  | nil => exact .found trivial
  | cons a rest ih =>
    rw [List.forall_mem_cons] at h
    refine .bindOption h.1 .giveUp fun _ _ => ?_
    exact .bindOption (ih h.2) .giveUp fun _ _ => .found trivial

theorem anyOf {rule : α → Rule Bool} {items : List α}
    (h : ∀ a ∈ items, Hears reading (rule a)) :
    Hears reading (anyOf rule items) := by
  induction items with
  | nil => exact .pure trivial
  | cons a rest ih =>
    rw [List.forall_mem_cons] at h
    exact .bind h.1 fun _ _ => .ite (.pure trivial) (ih h.2)

theorem allOf {rule : α → Rule Bool} {items : List α}
    (h : ∀ a ∈ items, Hears reading (rule a)) :
    Hears reading (allOf rule items) := by
  induction items with
  | nil => exact .pure trivial
  | cons a rest ih =>
    rw [List.forall_mem_cons] at h
    exact .bind h.1 fun _ _ => .ite (ih h.2) (.pure trivial)

end Finds

/-!
## Silent resolution
-/

/-- The reading goes through lengths and aliases. -/
structure Reading.Silent (reading : Reading) : Prop where
  valued : ∀ length, reading.Holds (.length length) →
    Hears reading (constInt length)
  unfolded : ∀ s id name span, reading.Admits s → reading.Holds (.symbol id) →
    (s.tree.symbol id).isTypeName = true →
    Leads reading (WhenSome reading.Reads) (unfoldAlias id name span false) s

theorem Leads.unfoldAlias {reading : Reading} {s : Session} {id : SymbolId}
    {name : String} {span : Span} (hs : reading.Admits s)
    (hid : reading.Holds (.symbol id))
    (hask : ∀ aliased, reading.Reads aliased → id ∉ s.unfolding →
      Leads reading (WhenSome reading.Reads)
        (withUnfolding id
          (withScope (s.tree.symbol id).scope
            (askResolved aliased span false))) s) :
    Leads reading (WhenSome reading.Reads) (unfoldAlias id name span false)
      s := by
  refine .ask (fun _ => rfl) ?_
  cases hty : (s.tree.symbol id).ty with
  | some ty => exact Finds.found (fun _ => reading.recorded hs hid hty) s hs
  | none =>
    have hset : ∀ ty, reading.Reads ty → Hears reading (setType id ty) :=
      fun ty hread t ht => ⟨reading.record ht hid hread, trivial, rfl⟩
    refine .bindOption ?_ .giveUp fun ty hread =>
      .bind (hset ty hread) fun _ _ => .found hread
    dsimp only
    cases haliased : (s.tree.symbol id).info.aliased with
    | none => exact Finds.giveUp s hs
    | some aliased =>
      refine .ask (fun _ => rfl) ?_
      split
      · exact Finds.giveUp s hs
      · next hfree =>
          refine hask aliased (fun _ => reading.aliased hs hid haliased) ?_
          exact fun hmem => hfree (List.contains_iff_mem.mpr hmem)

namespace Reading.Silent

variable {reading : Reading}

theorem resolveExtent (h : reading.Silent) {extent : Extent}
    (hextent : ∀ leaf ∈ extent.leaves, reading.Holds leaf) :
    Finds reading (fun extent => ∀ leaf ∈ extent.leaves, reading.Holds leaf)
      (resolveExtent extent) := by
  cases extent with
  | slice | fixed length => exact .pure hextent
  | expr length =>
    have hlength := hextent (.length length) (List.mem_singleton_self _)
    refine .bind (h.valued length hlength) fun n _ => ?_
    cases n with
    | none => exact .pure hextent
    | some n => exact .ite (.pure (List.forall_mem_nil _)) (.pure hextent)

theorem resolveNamed (h : reading.Silent) {name : String}
    (hname : reading.Holds (.name name)) (span : Span) :
    Finds reading (WhenSome reading.Reads) (resolveNamed name span false) := by
  have hanswers := Builtin.answers_type? name
  unfold Rule.resolveNamed
  split
  · next ty hbuiltin =>
      rw [hbuiltin] at hanswers
      obtain ⟨prim, rfl⟩ := hanswers ty rfl
      exact .found (List.forall_mem_nil _)
  · exact .giveUp
  · intro s hs
    refine .ask (fun _ => rfl) ?_
    cases hlookup : s.tree.lookup name with
    | none => exact Finds.giveUp s hs
    | some id =>
      have hid := reading.found hs hname hlookup
      refine .ask (fun _ => rfl) ?_
      split
      · next htype =>
          refine h.unfolded s id name span hs (hid ?_) htype
          exact Bool.or_eq_true_iff.mpr (.inl htype)
      · split
        · next herror =>
            have hread : WhenSome reading.Reads (s.tree.symbol id).ty :=
              fun ty hty _ => reading.recorded hs
                (hid (Bool.or_eq_true_iff.mpr (.inr herror))) hty
            exact Finds.pure hread s hs
        · exact Finds.giveUp s hs

mutual

theorem resolveTy (h : reading.Silent) (span : Span) (ty : Ty)
    (hty : reading.Reads ty) :
    Finds reading (WhenSome reading.Reads) (resolveTy span false ty) := by
  cases ty with
  | prim | errors | enum => exact .found hty
  | named name =>
    exact h.resolveNamed (hty (.name name) (List.mem_singleton_self _)) span
  | paren inner => exact resolveTy h span inner hty
  | pointer target | optional target =>
    exact .bindOption (resolveTy h span target hty) .giveUp
      fun _ hfound => .found hfound
  | array element extent mutable =>
    rw [reads_array] at hty
    refine .bindOption (resolveTy h span element hty.1) .giveUp
      fun _ helement => ?_
    exact .bind (h.resolveExtent hty.2) fun _ hextent =>
      .found (reads_array.mpr ⟨helement, hextent⟩)
  | tuple items | union items =>
    refine .bindOption (resolveAll h span items (reads_all.mp hty)) .giveUp
      fun _ hitems => ?_
    exact .found (reads_all.mpr hitems)
  | function params result error =>
    rw [reads_function] at hty
    refine .bindOption (resolveAll h span params hty.1) .giveUp
      fun _ hparams => ?_
    refine .bindOption (resolveTy h span result hty.2.1) .giveUp
      fun _ hresult => ?_
    refine .bindOption (resolveOpt h span error hty.2.2) .giveUp
      fun _ herror => ?_
    exact .found (reads_function.mpr ⟨hparams, hresult, herror⟩)
  | struct struct =>
    obtain ⟨name, members, scope⟩ := struct
    cases scope with
    | some scope => exact .found hty
    | none =>
      refine .bindOption
        (resolveMembers h span members (reads_members.mp hty)) .giveUp
        fun _ hmembers => ?_
      exact .found (reads_members.mpr hmembers)

theorem resolveAll (h : reading.Silent) (span : Span) (tys : List Ty)
    (htys : ∀ ty ∈ tys, reading.Reads ty) :
    Finds reading (WhenSome fun tys => ∀ ty ∈ tys, reading.Reads ty)
      (resolveAll span false tys) := by
  cases tys with
  | nil => exact .found (List.forall_mem_nil _)
  | cons ty rest =>
    rw [List.forall_mem_cons] at htys
    refine .bindOption (resolveTy h span ty htys.1) .giveUp fun _ hty => ?_
    refine .bindOption (resolveAll h span rest htys.2) .giveUp fun _ hrest => ?_
    exact .found (List.forall_mem_cons.mpr ⟨hty, hrest⟩)

theorem resolveOpt (h : reading.Silent) (span : Span) (ty : Option Ty)
    (hty : WhenSome reading.Reads ty) :
    Finds reading (WhenSome (WhenSome reading.Reads))
      (resolveOpt span false ty) := by
  cases ty with
  | none => exact .found hty
  | some ty =>
    refine .bindOption (resolveTy h span ty (hty ty rfl)) .giveUp
      fun _ hfound => ?_
    exact .found fun _ hmem => Option.mem_some.mp hmem ▸ hfound

theorem resolveMembers (h : reading.Silent) (span : Span)
    (members : List Member)
    (hmembers : ∀ member ∈ members, reading.Reads member.ty) :
    Finds reading
      (WhenSome fun members => ∀ member ∈ members, reading.Reads member.ty)
      (resolveMembers span false members) := by
  cases members with
  | nil => exact .found (List.forall_mem_nil _)
  | cons member rest =>
    obtain ⟨name, ty⟩ := member
    rw [List.forall_mem_cons] at hmembers
    refine .bindOption (resolveTy h span ty hmembers.1) .giveUp fun _ hty => ?_
    refine .bindOption (resolveMembers h span rest hmembers.2) .giveUp
      fun _ hrest => ?_
    exact .found (List.forall_mem_cons.mpr ⟨hty, hrest⟩)

end

variable {ty target source : Ty}

theorem normalize (h : reading.Silent) (hty : reading.Reads ty) :
    Finds reading reading.Reads (Rule.normalize ty) := by
  refine .bindOption (h.resolveTy .none ty hty) (.pure ?_)
    fun _ hfound => .pure hfound
  exact fun leaf hleaf => hty leaf (ty.leaves_stripParens reading.deep ▸ hleaf)

theorem inScope? (h : reading.Silent) {scope : Option ScopeId}
    (hscope : WhenSome (fun scope => reading.Holds (.home scope)) scope)
    (hty : reading.Reads ty) :
    Finds reading (WhenSome reading.Reads)
      (inScope? scope (tryResolve ty)) := by
  cases scope with
  | some scope => exact .withScope (hscope scope rfl) (h.resolveTy .none ty hty)
  | none => exact h.resolveTy .none ty hty

section Deep

variable (h : reading.Silent) (hdeep : reading.deep = true)

include h hdeep

theorem layoutTy (depth : Nat) (hty : reading.Reads ty) :
    Finds reading (WhenSome fun _ => True) (layoutTy depth ty) := by
  induction depth generalizing ty with
  | zero => exact .giveUp
  | succ depth ih =>
    unfold Rule.layoutTy
    refine .bindOption (h.resolveTy .none ty hty) .giveUp
      fun resolved hresolved => ?_
    cases resolved with
    | struct struct =>
      obtain ⟨hscope, hmembers⟩ := reads_struct hdeep hresolved
      refine .bindOption (.mapSome fun member hmember => ?_) .giveUp
        fun _ _ => .found trivial
      refine .bindOption (h.inScope? hscope (hmembers member hmember)) .giveUp
        fun _ hfound => ?_
      exact .bindOption (ih hfound) .giveUp fun _ _ => .found trivial
    | enum enum =>
      obtain ⟨hscope, hvariants⟩ := reads_enum hdeep hresolved
      refine .bindOption (.mapSome fun variant hvariant => ?_) .giveUp
        fun _ _ => .found trivial
      unfold Rule.layoutVariant
      cases hpayload : variant.payload with
      | none => exact .found trivial
      | some payload =>
        have hreads := hvariants variant hvariant payload hpayload
        refine .bindOption (h.inScope? hscope hreads) .giveUp
          fun _ hfound => ?_
        exact .bindOption (ih hfound) .giveUp fun _ _ => .found trivial
    | array element extent mutable =>
      have helement := ih (reads_array.mp hresolved).1
      cases extent with
      | slice => exact .found trivial
      | fixed | expr =>
        exact .bindOption helement .giveUp fun _ _ => .found trivial
    | tuple items | union items =>
      have hitems := reads_all.mp hresolved
      exact .bindOption (.mapSome fun item hitem => ih (hitems item hitem))
        .giveUp fun _ _ => .found trivial
    | optional inner =>
      exact .bindOption (ih hresolved) .giveUp fun _ _ => .found trivial
    | prim | errors | pointer | function | named | paren =>
      exact .found trivial

/-!
## Comparison
-/

variable (hask : ∀ target source : Ty, reading.Reads target →
  reading.Reads source → Hears reading (askCompatible target source))

include hask

theorem membersCompatible {target source : StructTy} {members : List Member}
    (htarget : WhenSome (fun scope => reading.Holds (.home scope)) target.scope)
    (hmembers : ∀ member ∈ members, reading.Reads member.ty)
    (hsource : reading.Reads (.struct source)) :
    Hears reading (membersCompatible target source members) := by
  obtain ⟨hscope, hgiven⟩ := reads_struct hdeep hsource
  induction members with
  | nil => exact .pure trivial
  | cons member rest ih =>
    rw [List.forall_mem_cons] at hmembers
    unfold Rule.membersCompatible
    cases hprovided : source.member? member.name with
    | none => exact .pure trivial
    | some provided =>
      have hread := hgiven provided (List.mem_of_find?_eq_some hprovided)
      refine .bind (h.inScope? htarget hmembers.1) fun expected hexpected => ?_
      refine .bind (h.inScope? hscope hread) fun received hreceived => ?_
      cases expected with
      | none => exact .pure trivial
      | some expected =>
        cases received with
        | none => exact .pure trivial
        | some received =>
          refine .bind (hask _ _ (hexpected _ rfl) (hreceived _ rfl))
            fun _ _ => ?_
          exact .ite (ih hmembers.2) (.pure trivial)

omit hdeep hask in
theorem pointeeCompatible (htarget : reading.Reads target)
    (hsource : reading.Reads source) :
    Hears reading (pointeeCompatible target source) := by
  refine .bind (h.normalize htarget) fun _ _ => ?_
  refine .bind (h.normalize hsource) fun _ _ => .ite (.pure trivial) ?_
  split <;> exact .pure trivial

theorem compatible (htarget : reading.Reads target)
    (hsource : reading.Reads source) :
    Hears reading (compatible target source) := by
  refine .ite (.pure trivial) (.ite (.pure trivial) ?_)
  split
  -- What is left are the pairs of types whose parts are compared.
  all_goals try exact .pure trivial
  · refine .allOf fun source hmem => .anyOf fun target hmem' => ?_
    exact hask _ _ (reads_all.mp htarget _ hmem') (reads_all.mp hsource _ hmem)
  · refine .ite (.anyOf fun target hmem => ?_) (.pure trivial)
    exact hask _ _ (reads_all.mp htarget _ hmem) hsource
  · refine .anyOf fun target hmem => ?_
    exact hask _ _ (reads_all.mp htarget _ hmem) hsource
  · refine .allOf fun source hmem => ?_
    exact hask _ _ htarget (reads_all.mp hsource _ hmem)
  · exact hask _ _ htarget hsource
  · refine .ite (.pure trivial) (.ite (hask _ _ ?_ ?_) (.pure trivial))
    · exact (reads_array.mp htarget).1
    · exact (reads_array.mp hsource).1
  · exact .ite (.pure trivial) (h.pointeeCompatible htarget hsource)
  · refine .ite (.allOf fun pair hmem => ?_) (.pure trivial)
    obtain ⟨hleft, hright⟩ := List.of_mem_zip hmem
    exact hask _ _ (reads_all.mp htarget _ hleft)
      (reads_all.mp hsource _ hright)
  · refine .ite (.pure trivial) (.ite (.pure trivial) (.ite (.pure trivial) ?_))
    obtain ⟨hscope, hmembers⟩ := reads_struct hdeep htarget
    exact h.membersCompatible hdeep hask hscope hmembers hsource

theorem isCompatible {expr : Option Expr} (htarget : reading.Reads target)
    (hsource : reading.Reads source) :
    Hears reading (isCompatible target source expr) := by
  refine .bind (h.normalize htarget) fun _ htarget => ?_
  refine .bind (h.normalize hsource) fun _ hsource => ?_
  exact .ite (.pure trivial) (h.compatible hdeep hask htarget hsource)

theorem canCast
    (hcast : ∀ target source : Ty, reading.Reads target →
      reading.Reads source → Hears reading (askCastable target source))
    (htarget : reading.Reads target) (hsource : reading.Reads source) :
    Hears reading (canCast target source) := by
  refine .bind (h.isCompatible hdeep hask htarget hsource) fun _ _ =>
    .ite (.pure trivial) ?_
  refine .bind (h.normalize htarget) fun _ htarget => ?_
  refine .bind (h.normalize hsource) fun _ hsource => ?_
  refine .ite (.pure trivial) (.ite (.pure trivial) (.ite (.pure trivial) ?_))
  split
  all_goals try exact .pure trivial
  exact hcast _ _ htarget hsource

end Deep

end Reading.Silent

/-!
## Depth

Where no length is read, the judge is asked only for what aliases stand for.
No alias is unfolded again while it is being unfolded, and so a judge that is
as deep as there are symbols is never asked below its depth.
-/

theorem Judge.above_above (last : Judge) (m n : Nat) :
    (last.above m).above n = last.above (m + n) := by
  induction n with
  | zero => rfl
  | succ n ih =>
    rw [← Nat.add_assoc]
    simp only [above, ih]

namespace Reading

/-- The reading over two judges of one depth, while definitions are being
unfolded, if the depth suffices to unfold all the others. -/
def bounded (reading : Reading) (last twin : Judge) (n : Nat)
    (unfolding : List SymbolId) : Reading where
  judge := last.above n
  twin := twin.above n
  deep := reading.deep
  Admits s := reading.Admits s ∧ s.unfolding = unfolding ∧
    s.tree.HasSteps unfolding (n + 1)
  Holds := reading.Holds
  current hs := reading.current hs.1
  enter hs hscope := ⟨reading.enter hs.1 hscope, hs.2.1, hs.2.2.of_size rfl⟩
  found hs := reading.found hs.1
  scope hs := reading.scope hs.1
  recorded hs := reading.recorded hs.1
  aliased hs := reading.aliased hs.1
  record hs hid hty := ⟨reading.record hs.1 hid hty, hs.2.1,
    hs.2.2.of_size (Array.size_setIfInBounds ..)⟩

variable (reading : Reading)

/-- By induction on the depth: what an alias stands for is resolved over the
judges one level down, with one definition more that is being unfolded. -/
theorem bounded_silent (last twin : Judge)
    (hlengths : ∀ length, ¬reading.Holds (.length length))
    (hfree : ∀ s unfolding, reading.Admits s →
      reading.Admits { s with unfolding })
    (n : Nat) (unfolding : List SymbolId) :
    (reading.bounded last twin n unfolding).Silent := by
  induction n generalizing unfolding with
  | zero =>
    refine ⟨fun length h => absurd h (hlengths length), ?_⟩
    intro s id name span hs hid htype
    refine .unfoldAlias hs hid fun aliased _ hnew => ?_
    rw [hs.2.1] at hnew
    exact absurd (hs.2.2.cons hnew htype) ScopeTree.HasSteps.pos
  | succ n ih =>
    refine ⟨fun length h => absurd h (hlengths length), ?_⟩
    intro s id name span hs hid htype
    refine .unfoldAlias hs hid fun aliased haliased hnew => ?_
    rw [hs.2.1] at hnew
    have hsteps := hs.2.2.cons hnew htype
    have hentered : (reading.bounded last twin n (id :: unfolding)).Admits
        { s with
          unfolding := id :: s.unfolding
          tree := s.tree.enter (s.tree.symbol id).scope } :=
      ⟨reading.enter (hfree s (id :: s.unfolding) hs.1)
        (reading.scope hs.1 hid), congrArg _ hs.2.1, hsteps.of_size rfl⟩
    obtain ⟨⟨ht, hunfolding, hleft⟩, hanswer, hsame⟩ :=
      (ih (id :: unfolding)).resolveTy span aliased haliased _ hentered
    refine ⟨⟨?_, ?_, ?_⟩, hanswer, ?_⟩
    · exact hfree _ _ (reading.enter ht (reading.current (hfree s _ hs.1)))
    · exact congrArg List.tail hunfolding
    · exact hleft.tail.of_size rfl
    · exact congrArg (fun run : Option Ty × Session =>
        (run.1, { run.2 with
          tree := run.2.tree.enter s.tree.current
          unfolding := run.2.unfolding.tail })) hsame

variable {reading}

theorem run_eq {rule : Rule α}
    (hrule : ∀ last twin n,
      ∃ post, Finds (reading.bounded last twin n []) post rule)
    {s : Session} (hs : reading.Admits s) (hunfolding : s.unfolding = [])
    (last twin : Judge) {m n : Nat} (hm : s.tree.symbols.size ≤ m)
    (hn : s.tree.symbols.size ≤ n) :
    rule (twin.above m) s = rule (last.above n) s := by
  obtain ⟨m, rfl⟩ := Nat.exists_eq_add_of_le' hm
  obtain ⟨n, rfl⟩ := Nat.exists_eq_add_of_le' hn
  obtain ⟨post, hfinds⟩ :=
    hrule (last.above n) (twin.above m) s.tree.symbols.size
  rw [← Judge.above_above, ← Judge.above_above]
  exact (hfinds s ⟨hs, hunfolding, .nil (Nat.lt_succ_self _)⟩).same

end Reading

/-!
## Lengths of one kind
-/

/-- A length of the kind, a symbol of the tree that can stand for a type, or
anything else that is read. -/
def Leaf.Fits (kind : Expr → Prop) (tree : ScopeTree) : Leaf → Prop
  | .length expr => kind expr
  | .symbol id => (tree.symbol id).isNamed = true
  | .name _ | .home _ => True

/-- If it can stand for a type, as it could in the tree, then all fits that
is read in the types that it has or is an alias for. -/
structure Symbol.Readable (deep : Bool) (kind : Expr → Prop) (tree : ScopeTree)
    (id : SymbolId) (symbol : Symbol) : Prop where
  isNamed_eq : symbol.isNamed = (tree.symbol id).isNamed
  types : symbol.isNamed = true → ∀ ty,
    symbol.ty = some ty ∨ symbol.info.aliased = some ty →
    ∀ leaf ∈ ty.leaves deep, leaf.Fits kind tree

/-- The reading of types all of whose lengths are of a kind, as are those of
the symbols that can stand for types. -/
def Reading.fitting (judge : Judge) (deep : Bool) (kind : Expr → Prop)
    (tree : ScopeTree) (evaluator : Evaluator) : Reading where
  judge
  twin := judge
  deep
  Admits s := s.evaluator = evaluator ∧
    ∀ id, (s.tree.symbol id).Readable deep kind tree id
  Holds leaf := leaf.Fits kind tree
  current _ := trivial
  enter hs _ := hs
  found hs _ _ h := (hs.2 _).isNamed_eq.symm.trans h
  scope _ _ := trivial
  recorded hs hid hty :=
    (hs.2 _).types ((hs.2 _).isNamed_eq.trans hid) _ (.inl hty) _
  aliased hs hid hty :=
    (hs.2 _).types ((hs.2 _).isNamed_eq.trans hid) _ (.inr hty) _
  record {s id ty} hs _ hty := by
    refine ⟨hs.1, fun other => ?_⟩
    refine s.tree.symbol_updateSymbol_induction id
      (fun symbol => { symbol with ty := some ty })
      (P := fun a b => a.Readable deep kind tree other →
        b.Readable deep kind tree other)
      (fun h => ⟨h.isNamed_eq, fun hnamed read hread => ?_⟩) (fun _ h => h)
      other (hs.2 other)
    rcases hread with hread | hread
    · cases hread
      exact hty
    · exact h.types hnamed read (.inr hread)

end StaticCheck
