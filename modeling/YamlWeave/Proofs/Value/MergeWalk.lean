import YamlWeave.Proofs.Value.MergeKeys

/-!
# Merging in place

Merging can be done in one tree that is changed in place. The walk keeps a stack of the nodes that
are still to be visited, by their addresses. Visiting a node resolves its own merge key where it
stands and puts its children on the stack, those among them that were taken in just now. The last
child comes to lie on top.

A node that is visited ends up merged, with everything inside it, before the walk goes on to what
lies under it on the stack (`runs_visit_iff`). So the walk of a whole tree ends, and it ends as
merging the tree does, with the same value or the same fault (`runs_start_iff`).
-/

set_option autoImplicit false

namespace YamlWeave

/-- The way from the top of a tree to a node: which child to go to, again and again. -/
abbrev Address := List Nat

namespace Value

variable {v node u x : Value} {values others : List Value} {address : Address}

/-! ## Children -/

theorem withChildren_children (v : Value) : v.withChildren v.children = v := by
  cases v with
  | mapping entries =>
    rw [children, withChildren, List.zip_map', List.map_id']
  | _ => rfl

/-- The children that are put in place are found there. There have to be as many as before, for keys
and tags stay. -/
theorem children_withChildren (h : values.length = v.children.length) :
    (v.withChildren values).children = values := by
  cases v with
  | mapping entries =>
    apply List.map_snd_zip
    simp [h, children]
  | sequence items => rfl
  | tagged tag content =>
    obtain ⟨other, rfl⟩ := List.length_eq_one_iff.mp h
    rfl
  | _ => exact (List.eq_nil_of_length_eq_zero h).symm

/-- Putting children in place a second time makes the first time forgotten. Only their number has to
be right, so that a mapping keeps all its keys. -/
theorem withChildren_withChildren (h : values.length = v.children.length)
    (h' : others.length = v.children.length) :
    (v.withChildren values).withChildren others = v.withChildren others := by
  cases v with
  | mapping entries =>
    have hkeys : ((entries.map (·.1)).zip values).map (·.1) = entries.map (·.1) := by
      apply List.map_fst_zip
      simp [h, children]
    simp only [withChildren, hkeys]
  | sequence items => rfl
  | tagged tag content =>
    obtain ⟨other, rfl⟩ := List.length_eq_one_iff.mp h
    obtain ⟨other', rfl⟩ := List.length_eq_one_iff.mp h'
    rfl
  | _ => rfl

/-! ## Nodes of a tree -/

/-- The node at an address. -/
def at? (v : Value) : Address → Option Value
  | [] => some v
  | i :: rest => v.children[i]?.bind fun child => child.at? rest

/-- The tree with another node at an address. -/
def put (v : Value) (address : Address) (u : Value) : Value :=
  match address with
  | [] => u
  | i :: rest =>
    match v.children[i]? with
    | some child => v.withChildren (v.children.set i (child.put rest u))
    | none => v

/-- What is done to a child is done to its place among the children. -/
theorem put_cons {i : Nat} (h : v.children[i]? = some x) (address : Address) (u : Value) :
    v.put (i :: address) u = v.withChildren (v.children.set i (x.put address u)) := by
  rw [put, h]

theorem at?_cons {i : Nat} (h : v.children[i]? = some x) (address : Address) :
    v.at? (i :: address) = x.at? address := by
  rw [at?, h]
  rfl

/-- Changing something inside a child changes this child and no other. -/
theorem children_put {i : Nat} (h : v.children[i]? = some x) (address : Address) (u : Value) :
    (v.put (i :: address) u).children = v.children.set i (x.put address u) := by
  rw [put_cons h, children_withChildren List.length_set]

/-- An address behind another one leads on from where that one leads. -/
theorem at?_append (v : Value) (address rest : Address) :
    v.at? (address ++ rest) = (v.at? address).bind (·.at? rest) := by
  induction address generalizing v with
  | nil => rfl
  | cons i address ih => simp only [List.cons_append, at?, Option.bind_assoc, ih]

theorem put_self (h : v.at? address = some u) : v.put address u = v := by
  induction address generalizing v with
  | nil => exact (Option.some.inj h).symm
  | cons i address ih =>
    obtain ⟨child, hchild, h⟩ := Option.bind_eq_some_iff.mp h
    obtain ⟨hi, rfl⟩ := List.getElem?_eq_some_iff.mp hchild
    rw [put_cons hchild, ih h, List.set_getElem_self, withChildren_children]

theorem at?_put (h : v.at? address = some x) : (v.put address u).at? address = some u := by
  induction address generalizing v with
  | nil => rfl
  | cons i address ih =>
    obtain ⟨child, hchild, h⟩ := Option.bind_eq_some_iff.mp h
    have hi := (List.getElem?_eq_some_iff.mp hchild).1
    have hput : (v.put (i :: address) u).children[i]? = some (child.put address u) := by
      rw [children_put hchild, List.getElem?_set_self hi]
    rw [at?_cons hput, ih h]

/-- Of two nodes that are put at one address, the second one stays. -/
theorem put_put (h : v.at? address = some x) :
    (v.put address node).put address u = v.put address u := by
  induction address generalizing v with
  | nil => rfl
  | cons i address ih =>
    obtain ⟨child, hchild, h⟩ := Option.bind_eq_some_iff.mp h
    have hi := (List.getElem?_eq_some_iff.mp hchild).1
    have hput : (v.put (i :: address) node).children[i]? = some (child.put address node) := by
      rw [children_put hchild, List.getElem?_set_self hi]
    rw [put_cons hput, children_put hchild, ih h, List.set_set, put_cons hchild,
      withChildren_withChildren List.length_set List.length_set, put_cons hchild]

/-- Putting a node inside another one is putting that one in its place again, changed. The walk
works deep in the tree, and this equation says what it does to the node above. -/
theorem put_append (h : v.at? address = some node) (rest : Address) (u : Value) :
    v.put (address ++ rest) u = v.put address (node.put rest u) := by
  induction address generalizing v with
  | nil =>
    cases h
    rfl
  | cons i address ih =>
    obtain ⟨child, hchild, h⟩ := Option.bind_eq_some_iff.mp h
    rw [List.cons_append, put_cons hchild, put_cons hchild, ih h]

/-- The child of a node is the one at the end of the longer address. -/
theorem at?_concat {i : Nat} (h : v.at? address = some node) (hchild : node.children[i]? = some x) :
    v.at? (address ++ [i]) = some x := by
  rw [at?_append, h]
  exact at?_cons hchild []

/-- Putting a child is putting the node with that child. -/
theorem put_concat {i : Nat} (h : v.at? address = some node) (hchild : node.children[i]? = some x)
    (u : Value) :
    v.put (address ++ [i]) u = v.put address (node.withChildren (node.children.set i u)) := by
  rw [put_append h, put_cons hchild]
  rfl

theorem mergedItems_nil : mergedItems [] = .ok [] := by
  rw [mergedItems]

/-- The last element is merged first. The stack of the walk has the last child on top, so both fail
in the same order. -/
theorem mergedItems_concat (items : List Value) (x : Value) :
    mergedItems (items ++ [x]) = x.merged >>= fun u => (· ++ [u]) <$> mergedItems items := by
  induction items with
  | nil =>
    rw [List.nil_append, mergedItems_nil, mergedItems, mergedItems_nil]
    cases x.merged <;> rfl
  | cons item items ih =>
    rw [List.cons_append, mergedItems, ih]
    simp only [mergedItems]
    cases x.merged with
    | error fault => rfl
    | ok u =>
      cases mergedItems items with
      | error fault => rfl
      | ok others => cases item.merged <;> rfl

end Value

open Value

/-- A tree that is being merged, and the nodes that are still to be visited, the next one first. -/
structure MergeWalk where
  tree : Value
  pending : List Address

namespace MergeWalk

variable {tree node v : Value} {address : Address} {pending : List Address}
  {outcome : Except MergeFault Value}

/-- The walk before its first step: the top of the tree is to be visited. -/
def start (v : Value) : MergeWalk := ⟨v, [[]]⟩

/-- The addresses of the first children of a node, the last of them first. -/
def addresses (address : Address) (count : Nat) : List Address :=
  (List.range count).reverse.map fun i => address ++ [i]

/-- Visits a node. Its own merge key is resolved in place, and its children are next. -/
def visit (tree : Value) (address : Address) (pending : List Address) (node : Value) :
    Except MergeFault MergeWalk := do
  let node ← node.flattened
  return ⟨tree.put address node, addresses address node.children.length ++ pending⟩

/-- A walk ends with a tree, or with a fault. -/
inductive Runs : MergeWalk → Except MergeFault Value → Prop
  | done (tree : Value) : Runs ⟨tree, []⟩ (.ok tree)
  | fault {tree node : Value} {address : Address} {pending : List Address} {fault : MergeFault}
      (hnode : tree.at? address = some node)
      (hvisit : visit tree address pending node = .error fault) :
      Runs ⟨tree, address :: pending⟩ (.error fault)
  | next {tree node : Value} {address : Address} {pending : List Address} {walk : MergeWalk}
      {outcome : Except MergeFault Value} (hnode : tree.at? address = some node)
      (hvisit : visit tree address pending node = .ok walk) (h : Runs walk outcome) :
      Runs ⟨tree, address :: pending⟩ outcome

/-- Something either fails, and so does the walk, or the walk goes on with its result. -/
def Leads {α : Type} (x : Except MergeFault α) (next : α → Prop)
    (outcome : Except MergeFault Value) : Prop :=
  (∃ fault, x = .error fault ∧ outcome = .error fault) ∨ ∃ a, x = .ok a ∧ next a

theorem leads_bind {α β : Type} {x : Except MergeFault α} {f : α → Except MergeFault β}
    {next : β → Prop} :
    Leads (x >>= f) next outcome ↔ Leads x (fun a => Leads (f a) next outcome) outcome := by
  cases x <;> simp [Leads, bind, Except.bind]

theorem leads_map {α β : Type} {x : Except MergeFault α} {f : α → β} {next : β → Prop} :
    Leads (f <$> x) next outcome ↔ Leads x (fun a => next (f a)) outcome := by
  cases x <;> simp [Leads, Functor.map, Except.map]

theorem leads_congr {α : Type} {x : Except MergeFault α} {next next' : α → Prop}
    (h : ∀ a, x = .ok a → (next a ↔ next' a)) : Leads x next outcome ↔ Leads x next' outcome :=
  or_congr_right (exists_congr fun a => and_congr_right (h a))

/-- The node on top of the stack is visited first, and what the stack holds below it waits. A run
ends with the fault of this visit or goes on from the stack that it leaves. -/
theorem runs_cons_iff (h : tree.at? address = some node) :
    Runs ⟨tree, address :: pending⟩ outcome ↔
      Leads (visit tree address pending node) (Runs · outcome) outcome := by
  constructor
  · intro hruns
    cases hruns with
    | fault hnode hvisit =>
      cases h.symm.trans hnode
      exact .inl ⟨_, hvisit, rfl⟩
    | next hnode hvisit hruns =>
      cases h.symm.trans hnode
      exact .inr ⟨_, hvisit, hruns⟩
  · rintro (⟨fault, hvisit, rfl⟩ | ⟨walk, hvisit, hruns⟩)
    · exact .fault h hvisit
    · exact .next h hvisit hruns

/-- The walk merges the value at an address before it goes on. -/
def Visits (v : Value) : Prop :=
  ∀ tree address pending outcome, tree.at? address = some v →
    (Runs ⟨tree, address :: pending⟩ outcome ↔
      Leads v.merged (fun u => Runs ⟨tree.put address u, pending⟩ outcome) outcome)

/-- The walk merges the first children of a node, the last of them first, before it goes on.
Induction on the number of these children, with those that are done already in `back`. -/
theorem runs_children_iff {front back : List Value} (h : tree.at? address = some node)
    (hchildren : node.children = front ++ back) (hfront : ∀ x ∈ front, Visits x) :
    Runs ⟨tree, addresses address front.length ++ pending⟩ outcome ↔
      Leads (mergedItems front) (fun values =>
        Runs ⟨tree.put address (node.withChildren (values ++ back)), pending⟩ outcome) outcome := by
  -- The last child is visited first, so the children behind the present one are merged already.
  induction front using List.reverseRecOn generalizing tree node back with
  | nil =>
    have hnode : node.withChildren back = node := by
      rw [← List.nil_append back, ← hchildren, withChildren_children]
    simp [addresses, mergedItems_nil, Leads, hnode, put_self h]
  | append_singleton front x ih =>
    rw [List.append_assoc] at hchildren
    obtain ⟨hfront, hx⟩ := List.forall_mem_append.mp hfront
    have hchild : node.children[front.length]? = some x := by simp [hchildren]
    have hset : ∀ u, node.children.set front.length u = front ++ u :: back := by
      simp [hchildren]
    have hstack : addresses address (front ++ [x]).length =
        (address ++ [front.length]) :: addresses address front.length := by
      simp [addresses, List.range_succ]
    rw [hstack, List.cons_append, hx x List.mem_cons_self _ _ _ _ (at?_concat h hchild),
      mergedItems_concat, leads_bind]
    refine leads_congr fun u _ => ?_
    have hlength : (front ++ u :: back).length = node.children.length := by simp [hchildren]
    rw [put_concat h hchild, hset, ih (at?_put h) (children_withChildren hlength) hfront, leads_map]
    refine leads_congr fun values hvalues => ?_
    have hvaluesLength : (values ++ u :: back).length = node.children.length := by
      rw [← hlength, List.length_append, List.length_append,
        (mergedItems_eq_ok.mp hvalues).length_eq]
    rw [put_put h, withChildren_withChildren hlength hvaluesLength, List.append_assoc]
    rfl

/-- **A visit is a merge.** The walk merges a node, with all that is inside it, before it goes on.
The induction is that of merging, so entries that were taken in by the visit are covered by it. -/
theorem runs_visit_iff (v : Value) : Visits v := by
  induction v using children_induction with
  | step v ih =>
    intro tree address pending outcome h
    rw [runs_cons_iff h, merged_eq, leads_bind, visit, leads_bind]
    refine leads_congr fun node hnode => ?_
    -- From here on the children are those of the flattened node, taken in ones among them.
    have hchildren : node.children = node.children ++ [] := (List.append_nil _).symm
    have hput : (tree.put address node).at? address = some node := at?_put h
    have hrow : Runs ⟨tree.put address node, addresses address node.children.length ++ pending⟩
          outcome ↔
        Leads (mergedItems node.children) (fun values =>
          Runs ⟨tree.put address (node.withChildren values), pending⟩ outcome) outcome := by
      rw [runs_children_iff hput hchildren (ih node hnode)]
      simp only [put_put h, List.append_nil]
    rw [leads_map, ← hrow]
    simp [Leads, pure, Except.pure]

/-- The walk of a tree ends, and it ends as merging the tree does. Termination comes from merging,
because the walk itself has no bound on its steps. -/
theorem runs_start_iff (v : Value) : Runs (start v) outcome ↔ outcome = v.merged := by
  rw [start, runs_visit_iff v v [] [] outcome rfl]
  constructor
  · rintro (⟨fault, hfault, rfl⟩ | ⟨u, hu, hruns⟩)
    · exact hfault.symm
    · cases hruns
      exact hu.symm
  · rintro rfl
    cases hmerged : v.merged with
    | error fault => exact .inl ⟨fault, rfl, rfl⟩
    | ok u => exact .inr ⟨u, rfl, .done u⟩

end MergeWalk

end YamlWeave
