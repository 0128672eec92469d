import Workbench.Proofs.Workflow.Wired

/-!
# A workflow is what was done to it last

Editing rewrites two lists. Seen from outside it keeps two maps: from
identifiers to records and from ports to edges. Both can be read off a log of
what was done, newest deed first. The record of a node is the one of the latest
deed about it, and the edge at a port is the one that was linked there last,
unless a later deed named that edge or dropped one of its ends. What an
operation does, and whether it succeeds, is told from the log alone, so the log
is a second account of editing that never looks at a list of nodes or edges.

The two accounts agree after every operation (`Shows`). The lists are searched
from the front, so that takes more than that they hold the right things:
identifiers have to be distinct, which `Shows` has from the order of the nodes,
and ports single, which is what `Wired` says. A node that comes back under an
old identifier finds none of its edges, as dropping it took them along.
-/

namespace Workbench.Workflow

/-- What an operation did. -/
inductive Deed
  | insert (node : Node)
  | revise (node : Node)
  | drop (id : Uuid)
  | link (edge : Edge)
  | cut (edge : Edge)
deriving DecidableEq

namespace Deed

/-- The node that the deed is about, if it is about one. -/
def subject? : Deed → Option Uuid
  | insert node | revise node => some node.id
  | drop id => some id
  | _ => none

/-- The record that the deed gives its node. -/
def record? : Deed → Option Node
  | insert node | revise node => some node
  | _ => none

def inserts (id : Uuid) : Deed → Bool
  | insert node => node.id == id
  | _ => false

/-- The edge that the deed links at the port. -/
def linkAt? (id : Uuid) (port : Option Port) : Deed → Option Edge
  | link edge => if edge.leaves id port then some edge else none
  | _ => none

/-- Whether the deed takes the edge away, by its own name or with one of its
ends. -/
def undoes (edge : Edge) : Deed → Bool
  | cut other => other == edge
  | drop id => edge.touches id
  | _ => false

end Deed

/-- What was done to a workflow, the newest first. -/
abbrev Log := List Deed

namespace Log

/-- The record of a node by the latest deed about it. -/
def record? (log : Log) (id : Uuid) : Option Node :=
  (log.find? (·.subject? == some id)).bind (·.record?)

/-- Whether the node is there, as far as the log tells. -/
def has (log : Log) (id : Uuid) : Bool := (log.record? id).isSome

/-- The deeds since an edge was last linked at the port. -/
def sinceLink (log : Log) (id : Uuid) (port : Option Port) : Log :=
  log.takeWhile fun deed => (deed.linkAt? id port).isNone

/-- The edge that was last linked at the port, unless it has been undone
since. -/
def edge? (log : Log) (id : Uuid) (port : Option Port) : Option Edge :=
  (log.findSome? (·.linkAt? id port)).filter fun edge =>
    !(log.sinceLink id port).any (·.undoes edge)

/-- The number of deeds since the node was last inserted. -/
def age (log : Log) (id : Uuid) : Nat := log.findIdx (·.inserts id)

/-- The log after an operation. A deed is only noted if the log has what the
operation needs. -/
def after (log : Log) : Edit → Log
  | .addNode node => .insert node :: log
  | .addEdge edge =>
      if log.has edge.source && log.has edge.target then .link edge :: log
      else log
  | .removeEdge edge =>
      if log.edge? edge.source edge.port = some edge then .cut edge :: log
      else log
  | .removeNode id => if log.has id then .drop id :: log else log
  | .updateNode node => if log.has node.id then .revise node :: log else log
  | .changeNode id change _ =>
      match log.record? id with
      | some node => .revise (change node) :: log
      | none => log
  | .addLoop name loop loopId endId =>
      .link { source := endId, target := loopId } ::
        .insert { id := endId, name := "End " ++ name, step := .endLoop { loopId } } ::
        .insert { id := loopId, name, step := .loop loop } :: log
  | .rename _ => log

/-! ## One more deed -/

variable {log : Log} {deed : Deed} {id : Uuid} {port : Option Port}

theorem record?_cons :
    record? (deed :: log) id =
      if deed.subject? = some id then deed.record? else log.record? id := by
  unfold record?
  by_cases h : deed.subject? = some id
  · rw [List.find?_cons_of_pos (by rwa [beq_iff_eq]), if_pos h]
    rfl
  · rw [List.find?_cons_of_neg (by rwa [beq_iff_eq]), if_neg h]

theorem edge?_cons_of_link {edge : Edge}
    (h : deed.linkAt? id port = some edge) :
    edge? (deed :: log) id port = some edge := by
  have hnone : (deed.linkAt? id port).isNone = false := by rw [h]; rfl
  rw [edge?, sinceLink, List.findSome?_cons_of_isSome (by rw [h]; rfl), h,
    List.takeWhile_cons_of_neg (by rw [hnone]; exact Bool.false_ne_true)]
  rfl

theorem edge?_cons_of_none (h : deed.linkAt? id port = none) :
    edge? (deed :: log) id port =
      (log.edge? id port).filter (!deed.undoes ·) := by
  rw [edge?, sinceLink, List.findSome?_cons_of_isNone (by rw [h]; rfl),
    List.takeWhile_cons_of_pos (by rw [h]; rfl), edge?, Option.filter_filter]
  congr 1
  funext edge
  rw [List.any_cons, Bool.not_or, Bool.and_comm]
  rfl

theorem edge?_cons_of_aside (h : deed.linkAt? id port = none)
    (hedges : ∀ edge, deed.undoes edge = false) :
    edge? (deed :: log) id port = log.edge? id port := by
  rw [edge?_cons_of_none h]
  simp only [hedges, Bool.not_false]
  cases log.edge? id port <;> rfl

theorem age_cons :
    age (deed :: log) id = if deed.inserts id then 0 else log.age id + 1 := by
  rw [age, List.findIdx_cons]
  cases deed.inserts id <;> rfl

end Log

/-! ## Look-ups after an operation -/

variable {workflow other : Workflow} {log : Log}

theorem contains_eq_isSome_find? (id : Uuid) :
    workflow.contains id = (workflow.find? id).isSome := by
  rw [Bool.eq_iff_iff, Option.isSome_iff_exists, exists_find?_iff, contains_iff]

theorem find?_addNode {node : Node} (hfresh : workflow.contains node.id = false)
    (id : Uuid) :
    (workflow.addNode node).find? id =
      if node.id = id then some node else workflow.find? id := by
  rw [find?, addNode, List.find?_append, ← find?]
  split
  · next heq =>
      have hnone : workflow.find? id = none := by
        rw [← heq, ← Option.not_isSome_iff_eq_none,
          ← contains_eq_isSome_find?, hfresh]
        exact Bool.false_ne_true
      rw [hnone, Option.none_or, List.find?_cons_of_pos (by rwa [beq_iff_eq])]
  · next hne =>
      rw [List.find?_cons_of_neg (by rwa [beq_iff_eq]), List.find?_nil,
        Option.or_none]

theorem find?_modifyFirst {id x : Uuid} {change : Node → Node}
    {nodes : List Node}
    (hkeeps : ∀ node, node.id = id → (change node).id = id) :
    (modifyFirst id change nodes).find? (·.id == x) =
      if id = x then (nodes.find? (·.id == x)).map change
      else nodes.find? (·.id == x) := by
  induction nodes with
  | nil => simp [modifyFirst]
  | cons node rest ih =>
      rw [modifyFirst]
      by_cases hnode : node.id = id
      · have hchanged := hkeeps node hnode
        rw [if_pos (by rwa [beq_iff_eq])]
        split
        · next hx =>
            rw [List.find?_cons_of_pos (by rw [beq_iff_eq, hchanged, hx]),
              List.find?_cons_of_pos (by rw [beq_iff_eq, hnode, hx])]
            rfl
        · next hx =>
            rw [List.find?_cons_of_neg (by rwa [beq_iff_eq, hchanged]),
              List.find?_cons_of_neg (by rwa [beq_iff_eq, hnode])]
      · rw [if_neg (by rwa [beq_iff_eq])]
        by_cases hx : node.id = x
        · have hid : id ≠ x := fun heq => hnode (hx.trans heq.symm)
          rw [if_neg hid, List.find?_cons_of_pos (by rwa [beq_iff_eq]),
            List.find?_cons_of_pos (by rwa [beq_iff_eq])]
        · rw [List.find?_cons_of_neg (by rwa [beq_iff_eq]),
            List.find?_cons_of_neg (by rwa [beq_iff_eq]), ih]

theorem find?_modifyNode {id x : Uuid} {change : Node → Node}
    (hkeeps : ∀ node, node.id = id → (change node).id = id) :
    (workflow.modifyNode id change).2.find? x =
      if id = x then (workflow.find? x).map change else workflow.find? x :=
  find?_modifyFirst hkeeps

theorem modifyNode_of_find?_eq_none {id : Uuid} {change : Node → Node}
    (h : workflow.find? id = none) :
    (workflow.modifyNode id change).2 = workflow := by
  have hsame : ∀ nodes : List Node, (∀ node ∈ nodes, ¬ (node.id == id) = true) →
      modifyFirst id change nodes = nodes := by
    intro nodes hother
    induction nodes with
    | nil => rfl
    | cons node rest ih =>
        rw [modifyFirst, if_neg (hother node (List.mem_cons_self ..)),
          ih fun other hmem => hother other (List.mem_cons_of_mem _ hmem)]
  rw [modifyNode, hsame workflow.nodes (List.find?_eq_none.1 h)]

theorem ids_removeNode_sublist (workflow : Workflow) (id : Uuid) :
    ((workflow.removeNode id).2.nodes.map (·.id)).Sublist
      (workflow.nodes.map (·.id)) := by
  cases hid : workflow.contains id with
  | false => rw [removeNode_of_not_contains hid]
  | true =>
      rw [removeNode_of_contains hid]
      exact List.eraseP_sublist.map _

/-- Where only one node has the identifier, none is found once it is removed. -/
theorem find?_removeNode (hids : (workflow.nodes.map (·.id)).Nodup) {id : Uuid}
    (hid : workflow.contains id = true) (x : Uuid) :
    (workflow.removeNode id).2.find? x =
      if id = x then none else workflow.find? x := by
  have hleft := hids.sublist (ids_removeNode_sublist workflow id)
  refine Option.ext fun node => ?_
  rw [find?_eq_some_iff hleft, removeNode_of_contains hid, mem_eraseP_id hids]
  split
  · next heq =>
      refine iff_of_false ?_ (by simp)
      exact fun h => h.1.2 (h.2.trans heq.symm)
  · next hne =>
      rw [find?_eq_some_iff hids]
      refine ⟨fun h => ⟨h.1.1, h.2⟩, fun h => ⟨⟨h.1, ?_⟩, h.2⟩⟩
      exact fun heq => hne (heq.symm.trans h.2)

/-- Where each port has one edge at most, that edge is the one that is found. -/
theorem Wired.edgeFrom?_eq_some_iff (h : workflow.Wired) {id : Uuid}
    {port : Option Port} {edge : Edge} :
    workflow.edgeFrom? id port = some edge ↔
      edge ∈ workflow.edges ∧ edge.source = id ∧ edge.port = port := by
  have hplace : ∀ {found}, workflow.edgeFrom? id port = some found →
      found ∈ workflow.edges ∧ found.source = id ∧ found.port = port := by
    intro found hfound
    rw [edgeFrom?] at hfound
    have hleaves := List.find?_some hfound
    exact ⟨List.mem_of_find?_eq_some hfound, Edge.leaves_iff.1 hleaves⟩
  refine ⟨hplace, fun hedge => ?_⟩
  obtain ⟨hmem, hsource, hport⟩ := hedge
  obtain ⟨found, hfound⟩ := Option.isSome_iff_exists.1
    (edgeFrom?_isSome_iff.2 ⟨edge, hmem, hsource, hport⟩)
  obtain ⟨hmem', hsource', hport'⟩ := hplace hfound
  rw [hfound, h.eq_of_same_port hmem' hmem (hsource'.trans hsource.symm)
    (hport'.trans hport.symm)]

theorem edgeFrom?_of_filter (h : workflow.Wired) (hother : other.Wired)
    {p : Edge → Bool} (hedges : other.edges = workflow.edges.filter p)
    (id : Uuid) (port : Option Port) :
    other.edgeFrom? id port = (workflow.edgeFrom? id port).filter p := by
  refine Option.ext fun edge => ?_
  rw [hother.edgeFrom?_eq_some_iff, Option.filter_eq_some_iff,
    h.edgeFrom?_eq_some_iff, hedges, List.mem_filter]
  exact ⟨fun hedge => ⟨⟨hedge.1.1, hedge.2⟩, hedge.1.2⟩,
    fun hedge => ⟨⟨hedge.1.1, hedge.2⟩, hedge.1.2⟩⟩

theorem edgeFrom?_addEdge (h : workflow.Wired) {edge : Edge}
    (hadmits : workflow.admits edge = true) (id : Uuid) (port : Option Port) :
    (workflow.addEdge edge).2.edgeFrom? id port =
      if edge.leaves id port then some edge
      else workflow.edgeFrom? id port := by
  refine Option.ext fun found => ?_
  rw [(h.addEdge edge).edgeFrom?_eq_some_iff, mem_edges_addEdge hadmits]
  split
  · next hleaves =>
      obtain ⟨hsource, hport⟩ := Edge.leaves_iff.1 hleaves
      refine ⟨fun hfound => ?_, fun hfound => ?_⟩
      · obtain ⟨rfl | ⟨-, hdiffer⟩, hsource', hport'⟩ := hfound
        · rfl
        · exact absurd ⟨hsource'.trans hsource.symm, hport'.trans hport.symm⟩
            hdiffer
      · obtain rfl := Option.some.inj hfound
        exact ⟨.inl rfl, hsource, hport⟩
  · next hleaves =>
      rw [Edge.leaves_iff] at hleaves
      rw [h.edgeFrom?_eq_some_iff]
      refine ⟨fun hfound => ?_, fun hfound => ?_⟩
      · obtain ⟨rfl | ⟨hfound, -⟩, hplace⟩ := hfound
        · exact absurd hplace hleaves
        · exact ⟨hfound, hplace⟩
      · obtain ⟨hfound, hsource, hport⟩ := hfound
        refine ⟨.inr ⟨hfound, fun hsame => hleaves ?_⟩, hsource, hport⟩
        exact ⟨hsame.1.symm.trans hsource, hsame.2.symm.trans hport⟩

/-! ## The two accounts agree -/

/-- The look-ups find what the log tells; every node was inserted, and of two
nodes the one inserted later comes later. -/
structure Shows (workflow : Workflow) (log : Log) : Prop where
  record : ∀ id, workflow.find? id = log.record? id
  edge : ∀ id port, workflow.edgeFrom? id port = log.edge? id port
  inserted : ∀ id ∈ workflow.nodes.map (·.id), log.age id < log.length
  ordered :
    (workflow.nodes.map (·.id)).Pairwise fun a b => log.age b < log.age a
  wired : workflow.Wired

namespace Shows

variable (h : workflow.Shows log)

include h

theorem nodup_ids : (workflow.nodes.map (·.id)).Nodup :=
  h.ordered.imp fun {a b} (hlt : log.age b < log.age a) heq => by
    rw [heq] at hlt
    exact Nat.lt_irrefl _ hlt

theorem contains_eq (id : Uuid) : workflow.contains id = log.has id := by
  rw [contains_eq_isSome_find?, h.record]
  rfl

/-- Whatever does not insert a node makes all of them older alike. -/
theorem ages_cons {deed : Deed} (hdeed : ∀ id, deed.inserts id = false)
    {ids : List Uuid} (hsub : ids.Sublist (workflow.nodes.map (·.id))) :
    (∀ id ∈ ids, Log.age (deed :: log) id < (deed :: log).length) ∧
      ids.Pairwise fun a b => Log.age (deed :: log) b <
        Log.age (deed :: log) a := by
  have hage : ∀ id, Log.age (deed :: log) id = log.age id + 1 := by
    intro id
    rw [Log.age_cons, if_neg (by rw [hdeed]; exact Bool.false_ne_true)]
  simp only [hage]
  refine ⟨fun id hid => Nat.succ_lt_succ (h.inserted id (hsub.subset hid)), ?_⟩
  exact (h.ordered.sublist hsub).imp Nat.succ_lt_succ

/-- A node that is inserted is younger than all that are there. -/
theorem ages_insert {node : Node} (hfresh : workflow.contains node.id = false) :
    (∀ id ∈ (workflow.addNode node).nodes.map (·.id),
        Log.age (.insert node :: log) id < (Deed.insert node :: log).length) ∧
      ((workflow.addNode node).nodes.map (·.id)).Pairwise
        fun a b => Log.age (.insert node :: log) b <
          Log.age (.insert node :: log) a := by
  have hold : ∀ id ∈ workflow.nodes.map (·.id),
      Log.age (.insert node :: log) id = log.age id + 1 := by
    intro id hid
    have hne : node.id ≠ id := by
      rintro rfl
      rw [contains_iff_mem_ids.2 hid] at hfresh
      cases hfresh
    rw [Log.age_cons, Deed.inserts, beq_false_of_ne hne]
    rfl
  have hnew : Log.age (.insert node :: log) node.id = 0 := by
    rw [Log.age_cons, Deed.inserts, beq_self_eq_true]
    rfl
  rw [addNode, List.map_append, List.map_singleton]
  refine ⟨fun id hid => ?_,
    List.pairwise_append.2 ⟨h.ordered.imp_of_mem fun ha hb hlt => ?_,
    List.pairwise_singleton _ _, fun a ha b hb => ?_⟩⟩
  · rcases List.mem_append.1 hid with hid | hid
    · rw [hold id hid]
      exact Nat.succ_lt_succ (h.inserted id hid)
    · rw [List.mem_singleton.1 hid, hnew]
      exact Nat.succ_pos _
  · rw [hold _ ha, hold _ hb]
    exact Nat.succ_lt_succ hlt
  · rw [List.mem_singleton.1 hb, hold a ha, hnew]
    exact Nat.succ_pos _

theorem insert (node : Node) (hfresh : workflow.contains node.id = false) :
    (workflow.addNode node).Shows (.insert node :: log) where
  record id := by
    rw [find?_addNode hfresh, Log.record?_cons, h.record]
    simp only [Deed.subject?, Option.some.injEq, Deed.record?]
  edge id port := by
    rw [Log.edge?_cons_of_aside rfl fun _ => rfl, ← h.edge]
    rfl
  inserted := (h.ages_insert hfresh).1
  ordered := (h.ages_insert hfresh).2
  wired := h.wired.addNode node

theorem link {edge : Edge} (hadmits : workflow.admits edge = true) :
    (workflow.addEdge edge).2.Shows (.link edge :: log) where
  record id := by
    rw [Log.record?_cons, if_neg (by simp [Deed.subject?]), ← h.record, find?,
      nodes_addEdge]
    rfl
  edge id port := by
    rw [edgeFrom?_addEdge h.wired hadmits]
    split
    · next hleaves =>
        rw [Log.edge?_cons_of_link (by rw [Deed.linkAt?, if_pos hleaves])]
    · next hleaves =>
        have hnone : (Deed.link edge).linkAt? id port = none := by
          rw [Deed.linkAt?, if_neg hleaves]
        rw [Log.edge?_cons_of_aside hnone fun _ => rfl, ← h.edge]
  inserted := (h.ages_cons (fun _ => rfl) (by rw [nodes_addEdge])).1
  ordered := (h.ages_cons (fun _ => rfl) (by rw [nodes_addEdge])).2
  wired := h.wired.addEdge edge

theorem cut (edge : Edge) :
    (workflow.removeEdge edge).2.Shows (.cut edge :: log) where
  record id := by
    rw [Log.record?_cons, if_neg (by simp [Deed.subject?]), ← h.record]
    rfl
  edge id port := by
    rw [Log.edge?_cons_of_none rfl, ← h.edge,
      edgeFrom?_of_filter h.wired (h.wired.removeEdge edge) rfl]
    congr 1
    funext other
    rw [Deed.undoes, bne, BEq.comm]
  inserted := (h.ages_cons (fun _ => rfl) (List.Sublist.refl _)).1
  ordered := (h.ages_cons (fun _ => rfl) (List.Sublist.refl _)).2
  wired := h.wired.removeEdge edge

theorem drop {id : Uuid} (hid : workflow.contains id = true) :
    (workflow.removeNode id).2.Shows (.drop id :: log) where
  record x := by
    rw [find?_removeNode h.nodup_ids hid, Log.record?_cons, h.record]
    simp only [Deed.subject?, Option.some.injEq, Deed.record?]
  edge x port := by
    have hedges := congrArg Workflow.edges (removeNode_of_contains hid)
    rw [Log.edge?_cons_of_none rfl, ← h.edge,
      edgeFrom?_of_filter h.wired (h.wired.removeNode id) hedges]
    rfl
  inserted :=
    (h.ages_cons (fun _ => rfl) (ids_removeNode_sublist workflow id)).1
  ordered := (h.ages_cons (fun _ => rfl) (ids_removeNode_sublist workflow id)).2
  wired := h.wired.removeNode id

theorem revise {id : Uuid} {node : Node} {change : Node → Node}
    (hkeeps : ∀ node, node.id = id → (change node).id = id)
    (hfind : workflow.find? id = some node) :
    (workflow.modifyNode id change).2.Shows (.revise (change node) :: log) where
  record x := by
    have hid : (change node).id = id := hkeeps node (mem_of_find? hfind).2
    rw [find?_modifyNode hkeeps, Log.record?_cons, h.record]
    simp only [Deed.subject?, hid, Option.some.injEq, Deed.record?]
    split
    · next heq => rw [← heq, ← h.record, hfind, Option.map_some]
    · rfl
  edge x port := by
    rw [Log.edge?_cons_of_aside rfl fun _ => rfl, ← h.edge]
    rfl
  inserted := (h.ages_cons (fun _ => rfl) (by rw [ids_modifyNode hkeeps])).1
  ordered := (h.ages_cons (fun _ => rfl) (by rw [ids_modifyNode hkeeps])).2
  wired := h.wired.modifyNode id hkeeps

end Shows

/-! ## Runs -/

/-- An operation that adds nodes is given identifiers that are not in use. -/
def Fresh (workflow : Workflow) : Edit → Prop
  | .addNode node => workflow.contains node.id = false
  | .addLoop _ _ loopId endId =>
      workflow.contains loopId = false ∧ workflow.contains endId = false ∧
        loopId ≠ endId
  | _ => True

/-- Every operation of a run is given identifiers that are not in use at its
time. -/
def FreshRun (workflow : Workflow) : List Edit → Prop
  | [] => True
  | edit :: rest => workflow.Fresh edit ∧ (workflow.edited edit).FreshRun rest

theorem Shows.edited (h : workflow.Shows log) {edit : Edit}
    (hfresh : workflow.Fresh edit) :
    (workflow.edited edit).Shows (log.after edit) := by
  cases edit with
  | addNode node => exact h.insert node hfresh
  | addEdge edge =>
      rw [Log.after, ← h.contains_eq, ← h.contains_eq, ← admits]
      split
      · next hadmits => exact h.link hadmits
      · next hrefused =>
          rw [Workflow.edited,
            addEdge_of_not_admits (Bool.not_eq_true _ ▸ hrefused)]
          exact h
  | removeEdge edge =>
      rw [Log.after, ← h.edge]
      split
      · exact h.cut edge
      · next habsent =>
          rw [h.wired.edgeFrom?_eq_some_iff] at habsent
          have hsame : workflow.edges.filter (· != edge) = workflow.edges := by
            refine List.filter_eq_self.2 fun other hother => bne_iff_ne.2 ?_
            rintro rfl
            exact habsent ⟨hother, rfl, rfl⟩
          rw [Workflow.edited, removeEdge, hsame]
          exact h
  | removeNode id =>
      rw [Log.after, ← h.contains_eq]
      split
      · next hid => exact h.drop hid
      · next hid =>
          rw [Workflow.edited,
            removeNode_of_not_contains (Bool.not_eq_true _ ▸ hid)]
          exact h
  | updateNode node =>
      rw [Log.after, Log.has, ← h.record]
      cases hfind : workflow.find? node.id with
      | some old => exact h.revise (fun _ _ => rfl) hfind
      | none =>
          rw [Workflow.edited, updateNode, modifyNode_of_find?_eq_none hfind]
          exact h
  | changeNode id change keeps_id =>
      rw [Log.after, ← h.record]
      cases hfind : workflow.find? id with
      | some old =>
          exact h.revise (fun node hid => (keeps_id node).trans hid) hfind
      | none =>
          rw [Workflow.edited, modifyNode_of_find?_eq_none hfind]
          exact h
  | addLoop name loop loopId endId =>
      -- Two new nodes, and an edge between them that nothing can refuse.
      obtain ⟨hloop, hend, hne⟩ := hfresh
      have hhead := h.insert { id := loopId, name, step := .loop loop } hloop
      have hboth :=
        hhead.insert
          { id := endId, name := "End " ++ name, step := .endLoop { loopId } }
          ?_
      · refine hboth.link (admits_iff.2 ⟨contains_addNode.2 (.inr rfl), ?_⟩)
        exact contains_addNode.2 (.inl (contains_addNode.2 (.inr rfl)))
      · rw [← Bool.not_eq_true, contains_addNode, hend]
        rintro (hold | hsame)
        · cases hold
        · exact hne hsame
  | rename name =>
      exact ⟨h.record, h.edge, h.inserted, h.ordered, h.wired.of_ids_eq rfl rfl⟩

theorem Shows.foldl_edited (h : workflow.Shows log) {edits : List Edit}
    (hfresh : workflow.FreshRun edits) :
    (edits.foldl Workflow.edited workflow).Shows
      (edits.foldl Log.after log) := by
  induction edits generalizing workflow log with
  | nil => exact h
  | cons edit rest ih => exact ih (h.edited hfresh.1) hfresh.2

theorem shows_empty (id : Uuid) (name : String) : Shows { id, name } [] where
  record _ := rfl
  edge _ _ := rfl
  inserted _ h := absurd h List.not_mem_nil
  ordered := .nil
  wired := wired_of_edges_eq_nil rfl

/-- What is found in a workflow, and whether an operation on it succeeds, is
told by the log. -/
structure KeptAs (workflow : Workflow) (log : Log) : Prop where
  ids_nodup : (workflow.nodes.map (·.id)).Nodup
  ids_inserted : ∀ id ∈ workflow.nodes.map (·.id), log.age id < log.length
  ids_ordered :
    (workflow.nodes.map (·.id)).Pairwise fun a b => log.age b < log.age a
  record : ∀ id, workflow.find? id = log.record? id
  edge : ∀ id port, workflow.edgeFrom? id port = log.edge? id port
  outgoing_single : ∀ id, ((workflow.outgoing id).map (·.port)).Nodup
  outgoing : ∀ id edge, edge ∈ workflow.outgoing id ↔
    edge.source = id ∧ log.edge? id edge.port = some edge
  adds_edge : ∀ edge,
    (workflow.addEdge edge).1 = (log.has edge.source && log.has edge.target)
  removes_edge : ∀ edge, (workflow.removeEdge edge).1 = true ↔
    log.edge? edge.source edge.port = some edge
  removes_node : ∀ id, (workflow.removeNode id).1 = log.record? id
  updates_node : ∀ node, (workflow.updateNode node).1 = log.has node.id

theorem Shows.keptAs (h : workflow.Shows log) : workflow.KeptAs log where
  ids_nodup := h.nodup_ids
  ids_inserted := h.inserted
  ids_ordered := h.ordered
  record := h.record
  edge := h.edge
  outgoing_single id := by
    refine List.pairwise_map.2 ((h.wired.port_single.filter _).imp_of_mem ?_)
    intro a b ha hb hdiffer hport
    have hsource : ∀ {edge},
        edge ∈ workflow.edges.filter (·.source == id) → edge.source = id :=
      fun hedge => beq_iff_eq.1 (List.mem_filter.1 hedge).2
    exact hdiffer ⟨(hsource ha).trans (hsource hb).symm, hport⟩
  outgoing id edge := by
    rw [← h.edge, h.wired.edgeFrom?_eq_some_iff, Workflow.outgoing,
      List.mem_filter, beq_iff_eq]
    exact ⟨fun hedge => ⟨hedge.2, hedge.1, hedge.2, rfl⟩,
      fun hedge => ⟨hedge.2.1, hedge.1⟩⟩
  adds_edge edge := by
    rw [← h.contains_eq, ← h.contains_eq, ← admits, Workflow.addEdge]
    split <;> simp [*]
  removes_edge edge := by
    rw [← h.edge, h.wired.edgeFrom?_eq_some_iff, Workflow.removeEdge,
      List.contains_iff_mem]
    exact ⟨fun hedge => ⟨hedge, rfl, rfl⟩, fun hedge => hedge.1⟩
  removes_node id := by
    rw [← h.record, Workflow.removeNode]
    split <;> simp [*]
  updates_node node := h.contains_eq node.id

/-- Operations in any order, from an empty workflow on: what was done last about
a node or at a port is what is found there, and the log of what was done tells
which operations succeed. -/
theorem edits_keptAs (id : Uuid) (name : String) {edits : List Edit}
    (hfresh : FreshRun { id, name } edits) :
    (edits.foldl edited { id, name }).KeptAs (edits.foldl Log.after []) :=
  ((shows_empty id name).foldl_edited hfresh).keptAs

/-- A port is taken over, the edge that was there before is removed in vain, and
a node goes and comes back, after which an edge to a node that never was is
refused. -/
def busyEdits : List Edit :=
  [.addNode { id := .ofNat 1, name := "one", step := .typeText {} },
    .addNode { id := .ofNat 2, name := "two", step := .typeText {} },
    .addLoop "again" { exitCondition := ⟨"x", .isEmpty, .null⟩ }
      (.ofNat 3) (.ofNat 4),
    .addEdge ⟨.ofNat 1, .ofNat 2, none⟩,
    .addEdge ⟨.ofNat 1, .ofNat 3, none⟩,
    .removeEdge ⟨.ofNat 1, .ofNat 2, none⟩,
    .addEdge ⟨.ofNat 3, .ofNat 2, some .loopBody⟩,
    .removeNode (.ofNat 2),
    .addNode { id := .ofNat 2, name := "back", step := .typeText {} },
    .updateNode { id := .ofNat 1, name := "new", step := .typeText {} },
    .addEdge ⟨.ofNat 2, .ofNat 5, none⟩]

theorem busyEdits_keptAs :
    FreshRun { id := .ofNat 0, name := "busy" } busyEdits ∧
      (busyEdits.foldl edited { id := .ofNat 0, name := "busy" }).nodes.map
        (·.id) = [.ofNat 1, .ofNat 3, .ofNat 4, .ofNat 2] ∧
      (busyEdits.foldl edited { id := .ofNat 0, name := "busy" }).edges =
        [⟨.ofNat 4, .ofNat 3, none⟩, ⟨.ofNat 1, .ofNat 3, none⟩] ∧
      (busyEdits.foldl edited { id := .ofNat 0, name := "busy" }).KeptAs
        (busyEdits.foldl Log.after []) := by
  have hfresh : FreshRun { id := .ofNat 0, name := "busy" } busyEdits :=
    ⟨rfl, rfl, ⟨rfl, rfl, by decide⟩, trivial, trivial, trivial, trivial,
      trivial, rfl, trivial, trivial, trivial⟩
  exact ⟨hfresh, rfl, rfl, edits_keptAs _ _ hfresh⟩

end Workbench.Workflow
