import ChatgptSystem.Foundations.Outline
import ChatgptSystem.Native.ResolutionEvidence
import ChatgptSystem.Native.SystemAccessibility

/-!
# The observed elements as an outline

What `traverse` makes of a tree is an outline of it: the nodes that are kept in the order in
which they are read, each pointing to the nearest node above it that is kept.

* `preorder` — the nodes of a tree with their addresses;
* `Reads` — what a part of the traversal has read; `Reads.append`, `Reads.keep`, `Reads.skip`;
* `traverse_reads` — the traversal;
* `Outlines.isDescendant_iff` — the resolver's ancestors are those of the tree.
-/

open Outline

namespace TargetRecovery

open InputControl DoubleArithmetic

/-! ## The nodes of a tree -/

section Preorder

variable {T D : Type}

mutual

/-- The nodes of a tree in the order in which they are read. -/
def preorder (address : Address) : AXUIElement T D → List (Address × AXUIElement T D)
  | .node attributes childrenError children =>
    (address, .node attributes childrenError children) :: preorderChildren address 0 children

def preorderChildren (address : Address) (place : ℕ) :
    List (AXUIElement T D) → List (Address × AXUIElement T D)
  | [] => []
  | child :: children =>
    preorder (address ++ [place]) child ++ preorderChildren address (place + 1) children

end

mutual

theorem prefix_of_mem_preorder {address : Address} {node : AXUIElement T D} :
    ∀ x ∈ preorder address node, address <+: x.1 := by
  intro x hx
  cases node with
  | node attributes childrenError children =>
    rw [preorder] at hx
    rcases List.mem_cons.mp hx with rfl | hx
    · exact List.prefix_rfl
    · obtain ⟨i, -, hprefix⟩ := exists_of_mem_preorderChildren x hx
      exact (List.prefix_append address [i]).trans hprefix

theorem exists_of_mem_preorderChildren {address : Address} {place : ℕ}
    {children : List (AXUIElement T D)} :
    ∀ x ∈ preorderChildren address place children, ∃ i, place ≤ i ∧ address ++ [i] <+: x.1 := by
  intro x hx
  cases children with
  | nil => simp [preorderChildren] at hx
  | cons child children =>
    rw [preorderChildren] at hx
    rcases List.mem_append.mp hx with hx | hx
    · exact ⟨place, le_rfl, prefix_of_mem_preorder x hx⟩
    · obtain ⟨i, hi, h⟩ := exists_of_mem_preorderChildren x hx
      exact ⟨i, Nat.le_of_succ_le hi, h⟩

end

theorem siblings_apart {address : Address} {place : ℕ} {child : AXUIElement T D}
    {children : List (AXUIElement T D)} {x y : Address × AXUIElement T D}
    (hx : x ∈ preorder (address ++ [place]) child)
    (hy : y ∈ preorderChildren address (place + 1) children) :
    ¬ x.1 <+: y.1 ∧ ¬ y.1 <+: x.1 := by
  have hx' := prefix_of_mem_preorder x hx
  obtain ⟨i, hi, hy'⟩ := exists_of_mem_preorderChildren y hy
  have hne : ∀ {z : Address}, address ++ [place] <+: z → ¬ address ++ [i] <+: z := by
    intro z h h'
    have heq : address ++ [place] = address ++ [i] := by
      rcases List.prefix_or_prefix_of_prefix h h' with h | h
      · exact h.eq_of_length (by simp)
      · exact (h.eq_of_length (by simp)).symm
    have hplace : place = i := by simpa using heq
    omega
  exact ⟨fun h => hne (hx'.trans h) hy', fun h => hne hx' (hy'.trans h)⟩

mutual

theorem nodup_preorder (address : Address) (node : AXUIElement T D) :
    ((preorder address node).map Prod.fst).Nodup := by
  cases node with
  | node attributes childrenError children =>
    rw [preorder, List.map_cons, List.nodup_cons]
    refine ⟨fun hmem => ?_, nodup_preorderChildren address 0 children⟩
    obtain ⟨x, hx, haddress⟩ := List.mem_map.mp hmem
    obtain ⟨i, -, h⟩ := exists_of_mem_preorderChildren x hx
    rw [show x.1 = address from haddress] at h
    have hlength := h.length_le
    rw [List.length_append, List.length_singleton] at hlength
    omega

theorem nodup_preorderChildren (address : Address) (place : ℕ)
    (children : List (AXUIElement T D)) :
    ((preorderChildren address place children).map Prod.fst).Nodup := by
  cases children with
  | nil => exact List.nodup_nil
  | cons child children =>
    rw [preorderChildren, List.map_append, List.nodup_append]
    refine ⟨nodup_preorder _ child, nodup_preorderChildren address _ children, ?_⟩
    rintro a ha b hb rfl
    obtain ⟨x, hx, rfl⟩ := List.mem_map.mp ha
    obtain ⟨y, hy, heq⟩ := List.mem_map.mp hb
    exact (siblings_apart hx hy).1 (heq ▸ List.prefix_rfl)

end

end Preorder

/-! ## What is read -/

section Reads

variable {T D : Type} [HostText T D] [DecidableEq T] [DoubleArithmetic D] {isBlank : T → Bool}
  {limits : ObservationLimits}

/-- The attributes of an element, and why they cannot be read otherwise. -/
def AXUIElement.attributes : AXUIElement T D → Except AccessibilityReadError (AXAttributes T D)
  | .node attributes _ _ => attributes

def IsContainer (isBlank : T → Bool) (node : Address × AXUIElement T D) : Prop :=
  ∃ attributes, node.2.attributes = .ok attributes ∧
    isPrunable isBlank attributes node.1.length = true

/-- A view is what a node looks like, and the node is not left out. -/
def DrawnFrom (isBlank : T → Bool) (node : Address × AXUIElement T D)
    (view : ObservedElementView T D) : Prop :=
  ∃ attributes, node.2.attributes = .ok attributes ∧
    isPrunable isBlank attributes node.1.length = false ∧
    view = elementView attributes view.index view.parentIndex node.1.length

abbrev Row (T D : Type) := (Address × AXUIElement T D) × ObservedElementView T D

def Row.entry (row : Row T D) : Address × Option ℤ := (row.1.1, row.2.parentIndex)

/-- Some nodes have been read between two states: rows have been added. -/
structure Reads (isBlank : T → Bool) (limits : ObservationLimits)
    (nodes : List (Address × AXUIElement T D)) (outer : Option ℤ) (state state' : Traversal T D)
    (rows : List (Row T D)) : Prop where
  elements : state'.elements = state.elements ++ rows.map Prod.snd
  sublist : (rows.map Prod.fst).Sublist nodes
  shows : ∀ row ∈ rows, DrawnFrom isBlank row.1 row.2
  index : ∀ (k : ℕ) row, rows[k]? = some row → row.2.index = state.elements.length + k
  links : Links state.elements.length outer (rows.map Row.entry)
  bounded : state'.elements.length ≤ max state.elements.length limits.maxElements.toNat
  complete : state'.truncated = false → state.truncated = false ∧
    ∀ node ∈ nodes, ¬ IsContainer isBlank node → node ∈ rows.map Prod.fst

variable {nodes nodes' : List (Address × AXUIElement T D)} {outer : Option ℤ}
  {state state' state'' : Traversal T D} {rows rows' : List (Row T D)}

theorem reads_nil : Reads isBlank limits [] outer state state [] where
  elements := (List.append_nil _).symm
  sublist := List.Sublist.refl _
  shows := by simp
  index := by simp
  links := links_nil
  bounded := Nat.le_max_left _ _
  complete h := ⟨h, by simp⟩

theorem reads_cut :
    Reads isBlank limits nodes outer state { state with truncated := true } [] where
  elements := (List.append_nil _).symm
  sublist := List.nil_sublist _
  shows := by simp
  index := by simp
  links := links_nil
  bounded := Nat.le_max_left _ _
  complete h := by cases h

theorem Reads.length_eq (h : Reads isBlank limits nodes outer state state' rows) :
    state'.elements.length = state.elements.length + rows.length := by
  rw [h.elements, List.length_append, List.length_map]

theorem Reads.append (h : Reads isBlank limits nodes outer state state' rows)
    (h' : Reads isBlank limits nodes' outer state' state'' rows')
    (hapart : ∀ x ∈ nodes, ∀ y ∈ nodes', ¬ x.1 <+: y.1 ∧ ¬ y.1 <+: x.1) :
    Reads isBlank limits (nodes ++ nodes') outer state state'' (rows ++ rows') where
  elements := by rw [h'.elements, h.elements, List.append_assoc, List.map_append]
  sublist := by rw [List.map_append]; exact h.sublist.append h'.sublist
  shows row hrow := (List.mem_append.mp hrow).elim (h.shows row) (h'.shows row)
  index k row hk := by
    rcases Nat.lt_or_ge k rows.length with hlt | hge
    · rw [List.getElem?_append_left hlt] at hk
      exact h.index k row hk
    · rw [List.getElem?_append_right hge] at hk
      rw [h'.index _ row hk, h.length_eq]
      omega
  links := by
    rw [List.map_append]
    refine h.links.append ?_ fun x hx y hy => ?_
    · rw [List.length_map, ← Int.natCast_add, ← h.length_eq]
      exact h'.links
    · obtain ⟨row, hrow, rfl⟩ := List.mem_map.mp hx
      obtain ⟨row', hrow', rfl⟩ := List.mem_map.mp hy
      have hx := h.sublist.subset (List.mem_map_of_mem hrow)
      have hy := h'.sublist.subset (List.mem_map_of_mem hrow')
      exact ⟨fun hbelow => (hapart _ hx _ hy).2 hbelow.1,
        fun hbelow => (hapart _ hx _ hy).1 hbelow.1⟩
  bounded := by
    have hle := h.bounded
    have hle' := h'.bounded
    omega
  complete htruncated := by
    obtain ⟨htruncated, hall'⟩ := h'.complete htruncated
    obtain ⟨htruncated, hall⟩ := h.complete htruncated
    refine ⟨htruncated, fun node hnode hkeep => ?_⟩
    rw [List.map_append, List.mem_append]
    rcases List.mem_append.mp hnode with hnode | hnode
    · exact .inl (hall node hnode hkeep)
    · exact .inr (hall' node hnode hkeep)

theorem Reads.skip {node : Address × AXUIElement T D} (hnode : IsContainer isBlank node)
    (h : Reads isBlank limits nodes outer state state' rows) :
    Reads isBlank limits (node :: nodes) outer state state' rows where
  elements := h.elements
  sublist := h.sublist.cons node
  shows := h.shows
  index := h.index
  links := h.links
  bounded := h.bounded
  complete htruncated := by
    obtain ⟨htruncated, hall⟩ := h.complete htruncated
    refine ⟨htruncated, fun other hother hkeep => ?_⟩
    rcases List.mem_cons.mp hother with rfl | hother
    · exact absurd hnode hkeep
    · exact hall other hother hkeep

theorem Reads.keep {node : Address × AXUIElement T D} {view : ObservedElementView T D}
    (hshows : DrawnFrom isBlank node view) (hindex : view.index = state.elements.length)
    (hparent : view.parentIndex = outer) (hroom : state.hasRoom limits = true)
    (hbelow : ∀ x ∈ nodes, Below x.1 node.1)
    (h : Reads isBlank limits nodes (some view.index)
      { state with elements := state.elements ++ [view] } state' rows) :
    Reads isBlank limits (node :: nodes) outer state state' ((node, view) :: rows) where
  elements := by rw [h.elements, List.append_assoc]; rfl
  sublist := h.sublist.cons_cons node
  shows row hrow := by
    rcases List.mem_cons.mp hrow with rfl | hrow
    · exact hshows
    · exact h.shows row hrow
  index k row hk := by
    cases k with
    | zero =>
      obtain rfl := Option.some.inj hk
      rw [hindex, Nat.cast_zero, Int.add_zero]
    | succ k =>
      have hrow := h.index k row hk
      rw [List.length_append, List.length_singleton] at hrow
      omega
  links := by
    have hlinks := h.links
    rw [List.length_append, List.length_singleton, hindex] at hlinks
    have hentries : Links state.elements.length outer
        ((node.1, outer) :: rows.map Row.entry) := hlinks.cons fun y hy => by
      obtain ⟨row, hrow, rfl⟩ := List.mem_map.mp hy
      exact hbelow _ (h.sublist.subset (List.mem_map_of_mem hrow))
    rw [List.map_cons, Row.entry, hparent]
    exact hentries
  bounded := by
    have hle := h.bounded
    have hlt : (state.elements.length : ℤ) < limits.maxElements := by
      simpa [Traversal.hasRoom] using hroom
    rw [List.length_append, List.length_singleton] at hle
    omega
  complete htruncated := by
    obtain ⟨htruncated, hall⟩ := h.complete htruncated
    refine ⟨htruncated, fun other hother hkeep => ?_⟩
    rcases List.mem_cons.mp hother with rfl | hother
    · exact List.mem_cons_self
    · exact List.mem_cons_of_mem _ (hall other hother hkeep)

end Reads

/-! ## The traversal -/

section Traverse

variable {T D : Type} [HostText T D] [DecidableEq T] [DoubleArithmetic D] {isBlank : T → Bool}
  {limits : ObservationLimits}

omit [HostText T D] [DecidableEq T] [DoubleArithmetic D] in
theorem below_of_mem_preorderChildren {address : Address} {place : ℕ}
    {children : List (AXUIElement T D)} {x : Address × AXUIElement T D}
    (hx : x ∈ preorderChildren address place children) : Below x.1 address := by
  obtain ⟨i, -, h⟩ := exists_of_mem_preorderChildren x hx
  refine ⟨(List.prefix_append address [i]).trans h, fun heq => ?_⟩
  have hlength := h.length_le
  rw [← heq, List.length_append, List.length_singleton] at hlength
  omega

theorem traverse_below (address : Address) (parentIndex : Option ℤ)
    (state state' : Traversal T D) (children : List (AXUIElement T D))
    (h : (if ! decide ((address.length : ℤ) < limits.maxDepth) then
        Except.ok ⟨state.elements, if children.isEmpty then state.truncated else true⟩
      else traverseChildren isBlank limits parentIndex ((address.length : ℤ) + 1)
        state children) = .ok state')
    (hchildren : traverseChildren isBlank limits parentIndex ((address.length : ℤ) + 1) state
      children = .ok state' →
      ∃ rows, Reads isBlank limits (preorderChildren address 0 children) parentIndex state state'
        rows) :
    ∃ rows, Reads isBlank limits (preorderChildren address 0 children) parentIndex state state'
      rows := by
  cases hdepth : decide ((address.length : ℤ) < limits.maxDepth) with
  | false =>
    rw [hdepth] at h
    obtain rfl := Except.ok.inj h
    cases children with
    | nil => exact ⟨[], reads_nil⟩
    | cons child children => exact ⟨[], reads_cut⟩
  | true =>
    rw [hdepth, Bool.not_true, if_neg Bool.false_ne_true] at h
    exact hchildren h

mutual

theorem traverse_reads (address : Address) (parentIndex : Option ℤ)
    (state state' : Traversal T D) (node : AXUIElement T D)
    (h : traverse isBlank limits parentIndex address.length state node = .ok state') :
    ∃ rows, Reads isBlank limits (preorder address node) parentIndex state state' rows := by
  cases node with
  | node attributes childrenError children =>
    rw [traverse.eq_def] at h
    dsimp only at h
    cases hroom : state.hasRoom limits with
    | false =>
      rw [hroom] at h
      obtain rfl := Except.ok.inj h
      exact ⟨[], reads_cut⟩
    | true =>
    rw [hroom, Bool.not_true, if_neg Bool.false_ne_true] at h
    cases attributes with
    | error error => cases h
    | ok attributes =>
    dsimp only at h
    cases childrenError with
    | some error => cases h
    | none =>
    dsimp only at h
    have hbelow : ∀ x ∈ preorderChildren address 0 children,
        Below x.1 address := fun x hx => below_of_mem_preorderChildren hx
    cases hpruned : isPrunable isBlank attributes address.length with
    | true =>
      rw [hpruned, if_pos rfl, if_pos rfl] at h
      obtain ⟨rows, hrows⟩ := traverse_below address parentIndex state state' children h
        fun h => traverseChildren_reads address 0 parentIndex state state' children h
      exact ⟨rows, hrows.skip ⟨attributes, rfl, hpruned⟩⟩
    | false =>
      rw [hpruned, if_neg Bool.false_ne_true, if_neg Bool.false_ne_true] at h
      obtain ⟨rows, hrows⟩ := traverse_below address _ _ state' children h
        fun h => traverseChildren_reads address 0 _ _ state' children h
      have hshows : DrawnFrom isBlank (address, .node (.ok attributes) none children)
          (elementView attributes state.elements.length parentIndex address.length) :=
        ⟨attributes, rfl, hpruned, rfl⟩
      exact ⟨_, Reads.keep hshows rfl rfl hroom hbelow hrows⟩

theorem traverseChildren_reads (address : Address) (place : ℕ) (parentIndex : Option ℤ)
    (state state' : Traversal T D) (children : List (AXUIElement T D))
    (h : traverseChildren isBlank limits parentIndex ((address.length : ℤ) + 1) state children =
      .ok state') :
    ∃ rows, Reads isBlank limits (preorderChildren address place children) parentIndex state state'
      rows := by
  cases children with
  | nil =>
    obtain rfl := Except.ok.inj h
    exact ⟨[], reads_nil⟩
  | cons child children =>
    rw [traverseChildren] at h
    cases hroom : state.hasRoom limits with
    | false =>
      rw [hroom] at h
      obtain rfl := Except.ok.inj h
      exact ⟨[], reads_cut⟩
    | true =>
      rw [hroom, Bool.not_true, if_neg Bool.false_ne_true] at h
      have hdepth : ((address.length : ℤ) + 1) = ((address ++ [place]).length : ℕ) := by simp
      cases hchild : traverse isBlank limits parentIndex ((address.length : ℤ) + 1) state child with
      | error error =>
        rw [hchild] at h
        cases h
      | ok middle =>
        rw [hchild] at h
        rw [hdepth] at hchild
        obtain ⟨rows, hrows⟩ := traverse_reads (address ++ [place]) parentIndex state middle child
          hchild
        obtain ⟨rows', hrows'⟩ := traverseChildren_reads address (place + 1) parentIndex middle
          state' children h
        exact ⟨rows ++ rows', hrows.append hrows' fun x hx y hy => siblings_apart hx hy⟩

end

end Traverse

/-! ## Ancestors -/

section Ancestors

variable {T D : Type} {elements : List (ComputerElementView T D)} {entries : Entries}

/-- A list of elements with their positions as indices, and an outline with the same pointers. -/
structure Outlines (elements : List (ComputerElementView T D)) (entries : Entries) : Prop where
  pointers : elements.map (·.parentIndex) = entries.map Prod.snd
  index : ∀ (k : ℕ) element, elements[k]? = some element → element.index = k
  links : Links 0 none entries

section

variable (h : Outlines elements entries)

include h

theorem Outlines.elementAt_eq (k : ℕ) : elementAt elements k = elements[k]? := by
  cases hk : elements[k]? with
  | none =>
    refine List.find?_eq_none.mpr fun element hmem hfound => ?_
    obtain ⟨i, hi⟩ := List.mem_iff_getElem?.mp hmem
    have hindex : (i : ℤ) = k := (h.index i element hi).symm.trans (by simpa using hfound)
    rw [Int.ofNat_inj.mp hindex, hk] at hi
    cases hi
  | some element =>
    cases hfound : elementAt elements k with
    | none =>
      have hnone := List.find?_eq_none.mp hfound element (List.mem_of_getElem? hk)
      exact absurd (h.index k element hk) (by simpa using hnone)
    | some other =>
      obtain ⟨hmem, hindex⟩ := elementAt_spec hfound
      obtain ⟨i, hi⟩ := List.mem_iff_getElem?.mp hmem
      have heq : (i : ℤ) = k := (h.index i other hi).symm.trans hindex
      rw [Int.ofNat_inj.mp heq] at hi
      rw [← hi, hk]

theorem Outlines.pointer_eq {k : ℕ} {pointer : Option ℤ} :
    (elements[k]?.map (·.parentIndex) = some pointer) ↔ ∃ a, entries[k]? = some (a, pointer) := by
  have hk := congrArg (·[k]?) h.pointers
  simp only [List.getElem?_map] at hk
  rw [hk]
  constructor
  · intro hmap
    obtain ⟨entry, hentry, rfl⟩ := Option.map_eq_some_iff.mp hmap
    exact ⟨entry.1, hentry⟩
  · rintro ⟨a, hentry⟩
    rw [hentry]
    rfl

theorem Outlines.reachesAncestor_of_transGen {k j : ℕ}
    (hpath : Relation.TransGen (Points entries) k j) :
    ∀ pointer, elements[k]?.map (·.parentIndex) = some pointer →
      ∀ visited : List ℤ, (∀ i ∈ visited, (k : ℤ) ≤ i) →
        reachesAncestor j elements visited pointer = true := by
  have hpointer : ∀ {k i : ℕ}, Points entries k i → ∀ pointer,
      elements[k]?.map (·.parentIndex) = some pointer → pointer = some (i : ℤ) := by
    rintro k i ⟨a, hentry⟩ pointer hk
    exact Option.some.inj (hk.symm.trans (h.pointer_eq.mpr ⟨a, hentry⟩))
  have hnew : ∀ {k i : ℕ} {visited : List ℤ}, Points entries k i →
      (∀ x ∈ visited, (k : ℤ) ≤ x) → (i : ℤ) ∉ visited := by
    intro k i visited hedge hvisited hmem
    have hlt := (h.links.points hedge).1
    have hle := hvisited _ hmem
    omega
  induction hpath using Relation.TransGen.head_induction_on with
  | single hedge =>
    intro pointer hk visited hvisited
    rw [hpointer hedge pointer hk, reachesAncestor, dif_neg (hnew hedge hvisited), if_pos rfl]
  | @head k i hedge _ ih =>
    intro pointer hk visited hvisited
    rw [hpointer hedge pointer hk, reachesAncestor, dif_neg (hnew hedge hvisited)]
    split
    · rfl
    · obtain ⟨-, a, -, b, q, hb, -⟩ := h.links.points hedge
      have hsome := h.pointer_eq.mpr ⟨b, hb⟩
      obtain ⟨parent, hparent, rfl⟩ := Option.map_eq_some_iff.mp hsome
      have hlt := (h.links.points hedge).1
      split
      next hnone =>
        rw [h.elementAt_eq, hparent] at hnone
        cases hnone
      next other hother =>
        rw [h.elementAt_eq, hparent] at hother
        obtain rfl := Option.some.inj hother
        refine ih _ (by rw [hparent]; rfl) _ fun x hx => ?_
        rcases List.mem_cons.mp hx with rfl | hx
        · exact le_rfl
        · have hle := hvisited x hx
          omega

theorem Outlines.transGen_of_reachesAncestor {j : ℕ} (visited : List ℤ) (pointer : Option ℤ)
    (hreaches : reachesAncestor j elements visited pointer = true) {k : ℕ} {a : Address}
    (hk : entries[k]? = some (a, pointer)) : Relation.TransGen (Points entries) k j := by
  fun_induction reachesAncestor (j : ℤ) elements visited pointer generalizing k a with
  | case1 => cases hreaches
  | case2 => cases hreaches
  | case3 => exact .single ⟨a, hk⟩
  | case4 => cases hreaches
  | case5 visited index _ _ parent hparent ih =>
    obtain ⟨hmem, rfl⟩ := elementAt_spec hparent
    obtain ⟨i, hi⟩ := List.mem_iff_getElem?.mp hmem
    rw [h.index i parent hi] at hk
    obtain ⟨b, hb⟩ := h.pointer_eq.mp (by rw [hi]; rfl : elements[i]?.map (·.parentIndex) = _)
    exact .head ⟨a, hk⟩ (ih hreaches hb)

theorem Outlines.isDescendant_iff (hnodup : (entries.map Prod.fst).Nodup) {k j : ℕ} {a b : Address}
    {element : ComputerElementView T D} (helement : elements[k]? = some element)
    (hk : entries[k]?.map Prod.fst = some a) (hj : entries[j]?.map Prod.fst = some b) :
    isDescendant element j elements = true ↔ Below a b := by
  rw [← transGen_points_iff h.links hnodup hk hj]
  have hpointer : elements[k]?.map (·.parentIndex) = some element.parentIndex := by
    rw [helement]; rfl
  constructor
  · intro hreaches
    obtain ⟨c, hc⟩ := h.pointer_eq.mp hpointer
    exact h.transGen_of_reachesAncestor [] _ hreaches hc
  · intro hpath
    exact h.reachesAncestor_of_transGen hpath _ hpointer [] (by simp)

theorem Outlines.parentIndex_lt {k : ℕ} {element : ComputerElementView T D}
    (hk : elements[k]? = some element) {parent : ℤ} (hparent : element.parentIndex = some parent) :
    0 ≤ parent ∧ parent < element.index := by
  have hpointer : elements[k]?.map (·.parentIndex) = some (some parent) := by
    rw [hk, ← hparent]
    rfl
  obtain ⟨a, ha⟩ := h.pointer_eq.mp hpointer
  rcases h.links k a _ ha with ⟨hnone, -⟩ | ⟨j, hj, hpointer, -⟩
  · cases hnone
  · rw [Int.zero_add, Option.some.injEq] at hpointer
    rw [h.index k element hk]
    omega

end

end Ancestors

/-! ## The outline -/

section Observed

variable {T D : Type} [HostText T D] [DecidableEq T] [DoubleArithmetic D] {isBlank : T → Bool}
  {limits : ObservationLimits} {nodes : List (Address × AXUIElement T D)}
  {state state' : Traversal T D} {rows : List (Row T D)}

def Traversal.views (state : Traversal T D) : List (ComputerElementView T D) :=
  state.elements.map (·.toComputerElementView)

theorem Reads.forall₂_shows (h : Reads isBlank limits nodes outer state state' rows) :
    List.Forall₂ (DrawnFrom isBlank) (rows.map Prod.fst) (rows.map Prod.snd) := by
  refine List.forall₂_map_left_iff.mpr (List.forall₂_map_right_iff.mpr ?_)
  exact List.forall₂_same.mpr h.shows

theorem Reads.outlines (h : Reads isBlank limits nodes none ⟨[], false⟩ state' rows) :
    Outlines state'.views (rows.map Row.entry) where
  pointers := by
    rw [Traversal.views, h.elements, List.nil_append, List.map_map, List.map_map, List.map_map]
    rfl
  index k element hk := by
    rw [Traversal.views, h.elements, List.nil_append, List.map_map, List.getElem?_map] at hk
    obtain ⟨row, hrow, rfl⟩ := Option.map_eq_some_iff.mp hk
    simpa using h.index k row hrow
  links := by simpa using h.links

/-- The elements that are observed are a faithful abstraction of the tree: its nodes in preorder
but for the containers that are left out and what is cut off, each with its position as its index
and a parent before it; and the resolver's descendants among them are those of the tree. -/
theorem observeTree_faithful {root : AXUIElement T D} {state : Traversal T D}
    (h : observeTree isBlank limits root = .ok state) :
    ∃ kept : List (Address × AXUIElement T D),
      kept.Sublist (preorder [] root) ∧
      List.Forall₂ (DrawnFrom isBlank) kept state.elements ∧
      (∀ (k : ℕ) view, state.elements[k]? = some view → view.index = k ∧
        ∀ parent, view.parentIndex = some parent → 0 ≤ parent ∧ parent < view.index) ∧
      (∀ (k j : ℕ) x y element, kept[k]? = some x → kept[j]? = some y →
        state.views[k]? = some element →
          (isDescendant element j state.views = true ↔ Below x.1 y.1)) ∧
      state.elements.length ≤ limits.maxElements.toNat ∧
      (state.truncated = false →
        ∀ node ∈ preorder [] root, ¬ IsContainer isBlank node → node ∈ kept) := by
  obtain ⟨rows, hrows⟩ := traverse_reads [] none ⟨[], false⟩ state root h
  have helements : state.elements = rows.map Prod.snd := hrows.elements
  have houtlines := hrows.outlines
  have hnodup : ((rows.map Row.entry).map Prod.fst).Nodup := by
    have haddresses := (hrows.sublist.map Prod.fst).nodup (nodup_preorder [] root)
    rwa [List.map_map] at haddresses ⊢
  refine ⟨rows.map Prod.fst, hrows.sublist, helements ▸ hrows.forall₂_shows, ?_, ?_, ?_,
    fun htruncated => (hrows.complete htruncated).2⟩
  · intro k view hview
    have hk : state.views[k]? = some view.toComputerElementView := by
      rw [Traversal.views, List.getElem?_map, hview]
      rfl
    exact ⟨houtlines.index k _ hk, fun parent hparent => houtlines.parentIndex_lt hk hparent⟩
  · intro k j x y element hx hy helement
    have haddress : ∀ {i : ℕ} {z}, (rows.map Prod.fst)[i]? = some z →
        (rows.map Row.entry)[i]?.map Prod.fst = some z.1 := by
      intro i z hz
      rw [List.getElem?_map] at hz
      obtain ⟨row, hrow, rfl⟩ := Option.map_eq_some_iff.mp hz
      rw [List.getElem?_map, hrow]
      rfl
    exact houtlines.isDescendant_iff hnodup helement (haddress hx) (haddress hy)
  · simpa using hrows.bounded

def groupedWindow : AXUIElement (List Char) ℤ :=
  let named := fun (role title : List Char) =>
    ({ role := some role, subrole := none, title := some title, description := none,
       focused := none, enabled := none, selected := none, position := none, size := none,
       actionNames := [] } : AXAttributes (List Char) ℤ)
  .node (.ok (named ['W'] ['w'])) none
    [.node (.ok (named "AXGroup".toList [])) none [.node (.ok (named ['B'] ['b'])) none []]]

theorem observeTree_faithful_groupedWindow :
    ∃ state kept, observeTree List.isEmpty .standard groupedWindow = .ok state ∧
      kept.Sublist (preorder [] groupedWindow) ∧
      List.Forall₂ (DrawnFrom List.isEmpty) kept state.elements ∧
      state.elements.map (·.parentIndex) = [none, some 0] := by
  obtain ⟨state, hstate, hparents⟩ : ∃ state,
      observeTree List.isEmpty .standard groupedWindow = .ok state ∧
        state.elements.map (·.parentIndex) = [none, some 0] := ⟨_, rfl, by decide +kernel⟩
  obtain ⟨kept, hkept, hshows, -⟩ := observeTree_faithful hstate
  exact ⟨state, kept, hstate, hkept, hshows, hparents⟩

end Observed

end TargetRecovery
