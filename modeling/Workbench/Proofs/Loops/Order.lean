import Mathlib.Data.Nat.Find
import Workbench.Proofs.Graph.Discovery
import Workbench.Proofs.Loops.Body

/-!
# A loop body stands in the order of its discovery

The body of a loop starts with its entry, and every other node stands where the
first edge puts it that leads to it: behind the nodes that an earlier member
leads to, or that the same member leads to by an earlier edge. `DiscoveryOrder`
says so of a list without speaking of walks, and it admits one list only
(`DiscoveryOrder.eq_of_parents`): where two lists part for the first time, the
two nodes there have their parents in the common part, which orders them.

That nodes closer to the entry come first follows from that order, by induction
on the path to the later node (`DiscoveryOrder.exists_path_le`): the parent of
the earlier node stands no later than the last node before the end of that path.

The boundary of the loop is visited by the walk and is not in the body. As the
walk follows no edge from it, it discovers nothing, and leaving it out changes
no parent.
-/

namespace Workbench

/-- Whether the edge leads from the one node to the other. -/
def Edge.links (edge : Edge) (a b : Uuid) : Bool :=
  edge.source == a && edge.target == b

namespace Workflow

variable {workflow : Workflow} {loopId entry : Uuid} {ids : List Uuid}

/-- The number of edges of a shortest path through the body to the node. -/
structure IsDistance (workflow : Workflow) (loopId entry v : Uuid) (n : Nat) :
    Prop where
  attained : ∃ path, workflow.BodyPath loopId entry v path ∧ path.length = n + 1
  least : ∀ path, workflow.BodyPath loopId entry v path → n < path.length

/-- The least place in the list from which an edge leads to the node. -/
def parentPlace (workflow : Workflow) (ids : List Uuid) (v : Uuid) : Nat :=
  ids.findIdx fun m => workflow.edges.any (·.links m v)

/-- The first node has the earlier parent, or the same parent and the earlier
edge from it. -/
def ComesBefore (workflow : Workflow) (ids : List Uuid) (u v : Uuid) : Prop :=
  workflow.parentPlace ids u < workflow.parentPlace ids v ∨
    workflow.parentPlace ids u = workflow.parentPlace ids v ∧
      ∃ m, ids[workflow.parentPlace ids u]? = some m ∧
        workflow.edges.findIdx (·.links m u) <
          workflow.edges.findIdx (·.links m v)

/-- The list has every node of the body once, in the order of discovery. -/
structure DiscoveryOrder (workflow : Workflow) (loopId entry : Uuid)
    (ids : List Uuid) : Prop where
  nodup : ids.Nodup
  mem_iff : ∀ v, v ∈ ids ↔ ∃ path, workflow.BodyPath loopId entry v path
  starts : ∀ first, ids.head? = some first → first = entry
  ordered : ∀ u ∈ ids, ∀ v ∈ ids, u ≠ v → u ≠ entry → v ≠ entry →
    (ids.idxOf u < ids.idxOf v ↔ workflow.ComesBefore ids u v)

/-! ## Parents and first occurrences -/

/-- Where the edges from a node lead, in the order of the edges. -/
def targets (workflow : Workflow) (a : Uuid) : List Uuid :=
  (workflow.edges.filter (·.source == a)).map (·.target)

theorem any_links_iff {a b : Uuid} :
    workflow.edges.any (·.links a b) = true ↔ workflow.Joins a b := by
  simp only [List.any_eq_true, Edge.links, Bool.and_eq_true, beq_iff_eq, Joins]

theorem contains_targets (a b : Uuid) :
    (workflow.targets a).contains b = workflow.edges.any (·.links a b) := by
  rw [Bool.eq_iff_iff, List.contains_iff_mem, any_links_iff]
  simp only [targets, List.mem_map, List.mem_filter, beq_iff_eq,
    Joins, and_assoc]

theorem idxOf_targets_lt_iff {a u v : Uuid} :
    (workflow.targets a).idxOf u < (workflow.targets a).idxOf v ↔
      workflow.edges.findIdx (·.links a u) <
        workflow.edges.findIdx (·.links a v) := by
  have hidx : ∀ b, (workflow.targets a).idxOf b =
      (workflow.edges.filter (·.source == a)).findIdx (·.links a b) := by
    intro b
    rw [targets, List.idxOf, List.findIdx_map]
    apply Nat.le_antisymm
    · refine List.findIdx_le_findIdx fun edge _ hlinks => ?_
      exact (Bool.and_eq_true_iff.1 hlinks).2
    · refine List.findIdx_le_findIdx fun edge hedge htarget => ?_
      exact Bool.and_eq_true_iff.2 ⟨(List.mem_filter.1 hedge).2, htarget⟩
  rw [hidx, hidx]
  refine findIdx_filter_lt_iff (fun edge _ hlinks => ?_)
    (fun edge _ hlinks => ?_)
  · exact (Bool.and_eq_true_iff.1 hlinks).1
  · exact (Bool.and_eq_true_iff.1 hlinks).1

/-- The order by parents is the order of first occurrences among the targets. -/
theorem comesBefore_iff {u v : Uuid} :
    workflow.ComesBefore ids u v ↔
      (ids.flatMap workflow.targets).idxOf u <
        (ids.flatMap workflow.targets).idxOf v := by
  rw [Arcs.idxOf_flatMap_lt_iff]
  simp only [contains_targets, idxOf_targets_lt_iff, ComesBefore, parentPlace]

theorem parentPlace_le {u v : Uuid} (hu : u ∈ ids)
    (hjoin : workflow.Joins u v) :
    workflow.parentPlace ids v ≤ ids.idxOf u := by
  rw [← Nat.not_lt]
  intro hlt
  have hnot := List.not_of_lt_findIdx hlt
  rw [List.getElem_idxOf (List.idxOf_lt_length_of_mem hu),
    any_links_iff.2 hjoin] at hnot
  exact Bool.noConfusion hnot

theorem joins_parentPlace (ids : List Uuid) {v : Uuid}
    (h : workflow.parentPlace ids v < ids.length) :
    workflow.Joins ids[workflow.parentPlace ids v] v :=
  any_links_iff.1 (List.findIdx_getElem (w := h))

/-! ## One list only -/

/-- Two lists of one length that are not equal part at some place. -/
theorem exists_parting {α : Type} {l l' : List α}
    (hlength : l.length = l'.length) (hne : l ≠ l') :
    ∃ before a after b after',
      l = before ++ a :: after ∧ l' = before ++ b :: after' ∧ a ≠ b := by
  classical
  induction l generalizing l' with
  | nil =>
      rw [List.length_nil, eq_comm, List.length_eq_zero_iff] at hlength
      exact absurd hlength.symm hne
  | cons a rest ih =>
      cases l' with
      | nil => cases hlength
      | cons b rest' =>
          by_cases hab : a = b
          · subst hab
            obtain ⟨before, c, after, d, after', hrest, hrest', hcd⟩ :=
              ih (Nat.succ_inj.1 hlength) fun heq => hne (congrArg _ heq)
            exact ⟨a :: before, c, after, d, after', by rw [hrest]; rfl,
              by rw [hrest']; rfl, hcd⟩
          · exact ⟨[], a, rest, b, rest', rfl, rfl, hab⟩

/-- A node whose parent precedes it is among the targets of the nodes before
it. -/
theorem mem_flatMap_targets {before after : List Uuid} {v : Uuid}
    (hv : v ∉ before)
    (h : workflow.parentPlace (before ++ v :: after) v <
      (before ++ v :: after).idxOf v) :
    v ∈ before.flatMap workflow.targets := by
  have hidx : (before ++ v :: after).idxOf v = before.length := by
    rw [List.idxOf_append_of_notMem hv, List.idxOf_cons_self, Nat.add_zero]
  rw [hidx] at h
  have hlength : before.length ≤ (before ++ v :: after).length := by
    rw [List.length_append]
    exact Nat.le_add_right ..
  have hjoin := joins_parentPlace (before ++ v :: after)
    (Nat.lt_of_lt_of_le h hlength)
  rw [List.getElem_append_left h] at hjoin
  refine List.mem_flatMap.2 ⟨_, List.getElem_mem h, ?_⟩
  rw [← List.contains_iff_mem, contains_targets]
  exact any_links_iff.2 hjoin

/-- What follows a node in the order of discovery comes after it by its parents
too. -/
theorem DiscoveryOrder.comesBefore {before after : List Uuid} {u v : Uuid}
    (h : workflow.DiscoveryOrder loopId entry (before ++ u :: after))
    (hentry : entry ∈ before) (hmem : v ∈ before ++ u :: after)
    (hv : v ∉ before) (huv : u ≠ v) :
    workflow.ComesBefore (before ++ u :: after) u v := by
  have hu : u ∉ before := fun hubefore =>
    (List.nodup_append'.1 h.nodup).2.2 hubefore (List.mem_cons_self ..)
  have humem : u ∈ before ++ u :: after :=
    List.mem_append_right _ (List.mem_cons_self ..)
  refine (h.ordered u humem v hmem huv ?_ ?_).1 ?_
  · exact fun heq => hu (heq ▸ hentry)
  · exact fun heq => hv (heq ▸ hentry)
  · rw [List.idxOf_append_of_notMem hu, List.idxOf_append_of_notMem hv,
      List.idxOf_cons_self, List.idxOf_cons_ne _ huv]
    exact Nat.add_lt_add_left (Nat.succ_pos _) _

/-- There is one list at most in the order of discovery, if in one the parents
come first. -/
theorem DiscoveryOrder.eq_of_parents {ids' : List Uuid}
    (h : workflow.DiscoveryOrder loopId entry ids)
    (hparents : ∀ v ∈ ids, v ≠ entry → workflow.parentPlace ids v < ids.idxOf v)
    (h' : workflow.DiscoveryOrder loopId entry ids') : ids' = ids := by
  by_contra hne
  have hsame : ∀ v, v ∈ ids ↔ v ∈ ids' :=
    fun v => (h.mem_iff v).trans (h'.mem_iff v).symm
  have hlength :=
    ((List.perm_ext_iff_of_nodup h.nodup h'.nodup).2 hsame).length_eq
  obtain ⟨before, u, after, v, after', rfl, rfl, huv⟩ :=
    exists_parting hlength (Ne.symm hne)
  cases before with
  | nil => exact huv ((h.starts u rfl).trans (h'.starts v rfl).symm)
  | cons first before =>
      obtain rfl : first = entry := h.starts first rfl
      have hfirst : first ∈ first :: before := List.mem_cons_self ..
      have hu : u ∉ first :: before := fun hmem =>
        (List.nodup_append'.1 h.nodup).2.2 hmem (List.mem_cons_self ..)
      have hv : v ∉ first :: before := fun hmem =>
        (List.nodup_append'.1 h'.nodup).2.2 hmem (List.mem_cons_self ..)
      have humem : u ∈ first :: before ++ u :: after :=
        List.mem_append_right _ (List.mem_cons_self ..)
      have hvmem : v ∈ first :: before ++ v :: after' :=
        List.mem_append_right _ (List.mem_cons_self ..)
      -- Each of the two comes first in one of the lists.
      have hlt := h.comesBefore hfirst ((hsame v).2 hvmem) hv huv
      have hgt := h'.comesBefore hfirst ((hsame u).1 humem) hu huv.symm
      have hcommon := mem_flatMap_targets hu
        (hparents u humem fun heq => hu (heq ▸ List.mem_cons_self ..))
      rw [comesBefore_iff, List.flatMap_append,
        List.idxOf_append_of_mem hcommon] at hlt hgt
      by_cases hvcommon : v ∈ (first :: before).flatMap workflow.targets
      · rw [List.idxOf_append_of_mem hvcommon] at hlt hgt
        exact Nat.lt_asymm hlt hgt
      · rw [List.idxOf_append_of_notMem hvcommon] at hgt
        have hplace := List.idxOf_lt_length_of_mem hcommon
        omega

/-! ## Closer nodes first -/

theorem BodyPath.concat {a b v : Uuid} {path : List Uuid}
    (hpath : workflow.BodyPath loopId a b path) (hjoin : workflow.Joins b v)
    (hv : workflow.Passable loopId v) :
    workflow.BodyPath loopId a v (path ++ [v]) where
  starts := by rw [List.head?_append, hpath.starts]; rfl
  ends := List.getLast?_concat
  joined := by
    refine List.isChain_append.2
      ⟨hpath.joined, .singleton v, fun x hx y hy => ?_⟩
    obtain rfl : b = x := by simpa [hpath.ends] using hx
    obtain rfl : v = y := by simpa using hy
    exact hjoin
  avoids_head := by
    rw [List.mem_append, List.mem_singleton, not_or]
    exact ⟨hpath.avoids_head, hv.1.symm⟩
  avoids_boundary bound hbound := by
    rw [List.mem_append, List.mem_singleton, not_or]
    refine ⟨hpath.avoids_boundary bound hbound, fun heq => ?_⟩
    exact hv.2 (boundary?_eq_some_iff.2 (heq ▸ hbound))

/-- A path has one node or comes to its last one along an edge. -/
theorem BodyPath.cases_concat {a v x : Uuid} {path : List Uuid}
    (hpath : workflow.BodyPath loopId a v (path ++ [x])) :
    path = [] ∧ v = a ∨ ∃ b,
      workflow.BodyPath loopId a b path ∧ workflow.Joins b v := by
  obtain rfl : x = v := by simpa using hpath.ends
  cases hlast : path.getLast? with
  | none =>
      obtain rfl := List.getLast?_eq_none_iff.1 hlast
      exact .inl ⟨rfl, by simpa using hpath.starts⟩
  | some b =>
      obtain ⟨hjoined, -, hjoin⟩ := List.isChain_append.1 hpath.joined
      refine .inr ⟨b, ⟨?_, hlast, hjoined, ?_, ?_⟩, hjoin b hlast x rfl⟩
      · have hstarts := hpath.starts
        rw [List.head?_append] at hstarts
        cases path with
        | nil => cases hlast
        | cons y rest => exact hstarts
      · exact fun h => hpath.avoids_head (List.mem_append_left _ h)
      · exact fun bound hbound h =>
          hpath.avoids_boundary bound hbound (List.mem_append_left _ h)

theorem exists_isDistance {v : Uuid}
    (h : ∃ path, workflow.BodyPath loopId entry v path) :
    ∃ n, workflow.IsDistance loopId entry v n := by
  classical
  have hlength : ∀ path, workflow.BodyPath loopId entry v path →
      path.length = path.length - 1 + 1 := by
    intro path hpath
    have hpos : 0 < path.length :=
      List.length_pos_of_mem (List.mem_of_getLast? hpath.ends)
    omega
  have hex : ∃ n path,
      workflow.BodyPath loopId entry v path ∧ path.length = n + 1 := by
    obtain ⟨path, hpath⟩ := h
    exact ⟨path.length - 1, path, hpath, hlength path hpath⟩
  refine ⟨Nat.find hex, Nat.find_spec hex, fun path hpath => ?_⟩
  have hle := Nat.find_min' hex ⟨path, hpath, hlength path hpath⟩
  have hpos := hlength path hpath
  omega

/-- Where the parents come first, whatever precedes a node in the order of
discovery is reached on a path that is no longer. -/
theorem DiscoveryOrder.exists_path_le
    (h : workflow.DiscoveryOrder loopId entry ids)
    (hparents : ∀ v ∈ ids, v ≠ entry → workflow.parentPlace ids v < ids.idxOf v)
    {u v : Uuid} {path : List Uuid} (hu : u ∈ ids)
    (hlt : ids.idxOf u < ids.idxOf v)
    (hpath : workflow.BodyPath loopId entry v path) :
    ∃ path',
      workflow.BodyPath loopId entry u path' ∧ path'.length ≤ path.length := by
  induction path using List.reverseRecOn generalizing u v with
  | nil => cases hpath.starts
  | append_singleton path x ih =>
      obtain ⟨upath, hupath⟩ := (h.mem_iff u).1 hu
      by_cases huentry : u = entry
      · subst huentry
        refine ⟨[u], .single hupath.passable_last, ?_⟩
        simp
      have hventry : v ≠ entry := by
        rintro rfl
        obtain ⟨first, rest, rfl⟩ :=
          List.exists_cons_of_ne_nil (List.ne_nil_of_mem hu)
        obtain rfl : first = v := h.starts first rfl
        rw [List.idxOf_cons_self] at hlt
        exact Nat.not_lt_zero _ hlt
      obtain ⟨-, heq⟩ | ⟨y, hypath, hyv⟩ := hpath.cases_concat
      · exact absurd heq hventry
      have hy : y ∈ ids := (h.mem_iff y).2 ⟨path, hypath⟩
      have hv : v ∈ ids := (h.mem_iff v).2 ⟨_, hpath⟩
      have huv : u ≠ v := fun heq => Nat.lt_irrefl _ (heq ▸ hlt)
      -- The parent of the earlier node stands no later than the last node but
      -- one of the path.
      have hle : workflow.parentPlace ids u ≤ ids.idxOf y := by
        have hyplace := parentPlace_le hy hyv
        rcases (h.ordered u hu v hv huv huentry hventry).1 hlt
          with hplace | ⟨hplace, -⟩
        · omega
        · omega
      have hplace : workflow.parentPlace ids u < ids.length :=
        Nat.lt_trans (hparents u hu huentry) (List.idxOf_lt_length_of_mem hu)
      have hjoin := joins_parentPlace ids hplace
      have hidx := h.nodup.idxOf_getElem _ hplace
      have hmem : ids[workflow.parentPlace ids u] ∈ ids :=
        List.getElem_mem hplace
      generalize ids[workflow.parentPlace ids u] = parent at hjoin hidx hmem
      obtain ⟨path', hpath', hshort⟩ : ∃ path',
          workflow.BodyPath loopId entry parent path' ∧
            path'.length ≤ path.length := by
        rcases Nat.eq_or_lt_of_le hle with heq | hlt
        · obtain rfl : parent = y := (List.idxOf_inj hmem).1 (hidx.trans heq)
          exact ⟨path, hypath, Nat.le_refl _⟩
        · exact ih hmem (hidx ▸ hlt) hypath
      refine ⟨path' ++ [u], hpath'.concat hjoin hupath.passable_last, ?_⟩
      rw [List.length_append, List.length_append]
      exact Nat.add_le_add_right hshort _

/-! ## The order of a body -/

theorem heads_arcsWithin {a : Uuid} (ha : workflow.boundary? loopId ≠ some a) :
    (workflow.arcsWithin loopId).heads a = workflow.targets a := by
  have hkept : ∀ edge ∈ workflow.edges,
      (edge.source == a && workflow.boundary? loopId != some edge.source) =
        (edge.source == a) := by
    intro edge _
    rw [Bool.eq_iff_iff, Bool.and_eq_true, beq_iff_eq, bne_iff_ne,
      and_iff_left_iff_imp]
    rintro rfl
    exact ha
  rw [Arcs.heads, arcsWithin, List.filter_map, List.map_map,
    List.filter_filter, targets]
  exact congrArg _ (List.filter_congr hkept)

theorem heads_boundary {a : Uuid} (ha : workflow.boundary? loopId = some a) :
    (workflow.arcsWithin loopId).heads a = [] := by
  refine List.eq_nil_iff_forall_not_mem.2 fun b hb => ?_
  exact (mem_arcsWithin.1 (Arcs.mem_heads.1 hb)).2 ha

theorem toList_loopBody (workflow : Workflow) (loopId : Uuid) :
    (workflow.loopBody loopId).toList =
      (workflow.bodyWalk loopId).filter fun id =>
        workflow.boundary? loopId != some id := by
  refine NodeSet.toList_ofList_of_nodup (List.Nodup.filter _ ?_)
  unfold bodyWalk
  split
  · exact .nil
  · split
    · exact .nil
    · refine Arcs.nodup_walk (List.nodup_singleton _) fun a ha => ?_
      rw [List.mem_singleton.1 ha]
      exact List.mem_cons_self ..

/-- The boundary leads nowhere, so the members alone account for what is
discovered. -/
theorem flatMap_heads_bodyWalk (workflow : Workflow) (loopId : Uuid) :
    (workflow.bodyWalk loopId).flatMap (workflow.arcsWithin loopId).heads =
      (workflow.loopBody loopId).toList.flatMap workflow.targets := by
  rw [toList_loopBody]
  induction workflow.bodyWalk loopId with
  | nil => rfl
  | cons a rest ih =>
      by_cases ha : workflow.boundary? loopId = some a
      · rw [List.flatMap_cons, heads_boundary ha,
          List.filter_cons_of_neg (by simpa using ha)]
        exact ih
      · rw [List.filter_cons_of_pos (by simpa using ha), List.flatMap_cons,
          List.flatMap_cons, heads_arcsWithin ha, ih]

section

variable (hentry : workflow.bodyEntry? loopId = some entry)

include hentry

theorem passable_entry {v : Uuid} (hv : v ∈ (workflow.loopBody loopId).toList) :
    workflow.Passable loopId entry := by
  obtain ⟨first, hfirst, path, hpath⟩ := mem_loopBody_iff.1 hv
  obtain rfl : first = entry := Option.some.inj (hfirst.symm.trans hentry)
  exact hpath.passable (List.mem_of_head? hpath.starts)

theorem bodyWalk_eq_walk (hne : entry ≠ loopId) :
    workflow.bodyWalk loopId =
      (workflow.arcsWithin loopId).walk [entry, loopId] [entry] := by
  simp only [bodyWalk, hentry, if_neg hne]

theorem bodyWalk_eq_cons (hne : entry ≠ loopId) :
    workflow.bodyWalk loopId = entry :: Arcs.fresh [entry, loopId]
      ((workflow.loopBody loopId).toList.flatMap workflow.targets) := by
  rw [← flatMap_heads_bodyWalk, bodyWalk_eq_walk hentry hne]
  exact Arcs.walk_eq_append_fresh ..

theorem idxOf_loopBody_lt_iff {u v : Uuid}
    (hu : u ∈ (workflow.loopBody loopId).toList)
    (hv : v ∈ (workflow.loopBody loopId).toList) (huentry : u ≠ entry)
    (hventry : v ≠ entry) :
    (workflow.loopBody loopId).toList.idxOf u <
      (workflow.loopBody loopId).toList.idxOf v ↔
      workflow.ComesBefore (workflow.loopBody loopId).toList u v := by
  have hne := (passable_entry hentry hu).1
  have hkept : ∀ x ∈ (workflow.loopBody loopId).toList,
      ∀ id ∈ workflow.bodyWalk loopId, (id == x) = true →
        (workflow.boundary? loopId != some id) = true := by
    intro x hx id _ hid
    rw [beq_iff_eq.1 hid, bne_iff_ne]
    exact (passable_of_mem_loopBody hx).2
  have hunseen : ∀ x ∈ (workflow.loopBody loopId).toList,
      x ≠ entry → x ∉ [entry, loopId] := by
    intro x hx hxentry
    simp only [List.mem_cons, List.not_mem_nil, or_false, not_or]
    exact ⟨hxentry, (passable_of_mem_loopBody hx).1⟩
  have hwalk := bodyWalk_eq_cons hentry hne
  have horder :
      workflow.ComesBefore (workflow.loopBody loopId).toList u v ↔ _ :=
    comesBefore_iff
  generalize (workflow.loopBody loopId).toList.flatMap workflow.targets =
    found at hwalk horder
  calc
    (workflow.loopBody loopId).toList.idxOf u <
          (workflow.loopBody loopId).toList.idxOf v
      ↔ (workflow.bodyWalk loopId).idxOf u <
          (workflow.bodyWalk loopId).idxOf v := by
        rw [toList_loopBody]
        exact findIdx_filter_lt_iff (hkept u hu) (hkept v hv)
    _ ↔ (Arcs.fresh [entry, loopId] found).idxOf u <
          (Arcs.fresh [entry, loopId] found).idxOf v := by
        rw [hwalk, List.idxOf_cons_ne _ huentry.symm,
          List.idxOf_cons_ne _ hventry.symm, Nat.succ_lt_succ_iff]
    _ ↔ found.idxOf u < found.idxOf v :=
        Arcs.idxOf_fresh_lt_iff (hunseen u hu huentry) (hunseen v hv hventry)
    _ ↔ workflow.ComesBefore (workflow.loopBody loopId).toList u v :=
        horder.symm

theorem discoveryOrder_loopBody :
    workflow.DiscoveryOrder loopId entry (workflow.loopBody loopId).toList where
  nodup := NodeSet.nodup _
  mem_iff v := by
    rw [mem_loopBody_iff, hentry]
    simp only [Option.some.injEq, exists_eq_left']
  starts first hfirst := by
    have hpass := passable_entry hentry (List.mem_of_head? hfirst)
    rw [toList_loopBody, bodyWalk_eq_cons hentry hpass.1,
      List.filter_cons_of_pos (by simpa using hpass.2)] at hfirst
    exact (Option.some.inj hfirst).symm
  ordered _ hu _ hv _ huentry hventry :=
    idxOf_loopBody_lt_iff hentry hu hv huentry hventry

theorem parentPlace_lt_idxOf {v : Uuid}
    (hv : v ∈ (workflow.loopBody loopId).toList) (hventry : v ≠ entry) :
    workflow.parentPlace (workflow.loopBody loopId).toList v <
      (workflow.loopBody loopId).toList.idxOf v := by
  have hwalk := bodyWalk_eq_walk hentry (passable_entry hentry hv).1
  have hvisited : v ∈ workflow.bodyWalk loopId := by
    rw [toList_loopBody] at hv
    exact (List.mem_filter.1 hv).1
  have hfirst :
      (workflow.bodyWalk loopId).findIdx
          (fun a => ((workflow.arcsWithin loopId).heads a).contains v) <
      (workflow.bodyWalk loopId).idxOf v := by
    rw [hwalk] at hvisited ⊢
    exact Arcs.findIdx_heads_lt_idxOf_walk hvisited (by simpa using hventry)
  have hwithin :
      (workflow.loopBody loopId).toList.findIdx
          (fun a => ((workflow.arcsWithin loopId).heads a).contains v) <
      (workflow.loopBody loopId).toList.idxOf v := by
    rw [toList_loopBody]
    refine (findIdx_filter_lt_iff (fun a _ ha => ?_) (fun a _ ha => ?_)).2
      hfirst
    · rw [List.contains_iff_mem, Arcs.mem_heads, mem_arcsWithin] at ha
      exact bne_iff_ne.2 ha.2
    · rw [beq_iff_eq.1 ha]
      exact bne_iff_ne.2 (passable_of_mem_loopBody hv).2
  refine Nat.lt_of_le_of_lt (List.findIdx_le_findIdx fun a _ ha => ?_) hwithin
  rw [List.contains_iff_mem, Arcs.mem_heads, mem_arcsWithin] at ha
  exact any_links_iff.2 ha.1

end

/-- The body of a loop with an entry stands in breadth-first order. It starts
with the entry, nodes closer to the entry come first, the order of two nodes is
that of their parents or of the edges from their common parent, and no other
list of the same nodes has that order. -/
theorem loopBodies_discoveryOrder {body : NodeSet}
    (hbody : workflow.loopBodies.body? loopId = some body)
    (hentry : workflow.IsEntry loopId entry) :
    workflow.DiscoveryOrder loopId entry body.toList ∧
    (∀ ids, workflow.DiscoveryOrder loopId entry ids → ids = body.toList) ∧
    (∀ v ∈ body.toList, v ≠ entry →
      workflow.parentPlace body.toList v < body.toList.idxOf v) ∧
    (∀ v ∈ body.toList, ∃ n, workflow.IsDistance loopId entry v n) ∧
    body.toList.Pairwise fun u v => ∀ m n,
      workflow.IsDistance loopId entry u m →
      workflow.IsDistance loopId entry v n → m ≤ n := by
  obtain ⟨-, rfl⟩ := body?_eq_some_iff.1 hbody
  have hentry := bodyEntry?_eq_some_iff.2 hentry
  have horder := discoveryOrder_loopBody hentry
  have hparents : ∀ v ∈ (workflow.loopBody loopId).toList, v ≠ entry →
      workflow.parentPlace (workflow.loopBody loopId).toList v <
        (workflow.loopBody loopId).toList.idxOf v :=
    fun v hv hventry => parentPlace_lt_idxOf hentry hv hventry
  refine ⟨horder, fun ids h => horder.eq_of_parents hparents h, hparents,
    fun v hv => exists_isDistance ((horder.mem_iff v).1 hv), ?_⟩
  refine List.pairwise_iff_getElem.2 fun i j hi hj hij m n hm hn => ?_
  obtain ⟨path, hpath, hlength⟩ := hn.attained
  have hlt :
      (workflow.loopBody loopId).toList.idxOf
          (workflow.loopBody loopId).toList[i] <
        (workflow.loopBody loopId).toList.idxOf
          (workflow.loopBody loopId).toList[j] := by
    rw [horder.nodup.idxOf_getElem i hi, horder.nodup.idxOf_getElem j hj]
    exact hij
  obtain ⟨path', hpath', hle⟩ :=
    horder.exists_path_le hparents (List.getElem_mem hi) hlt hpath
  have hleast := hm.least path' hpath'
  omega

/-! ## Edges that cross -/

/-- A loop over a choice. The branch that the choice leads to first goes on to
three nodes, one of them the end of the loop and one of them by two edges. The
other branch leads to one of the same nodes, by the first edge of all. -/
def crossing : Workflow where
  id := .ofNat 0
  name := "crossing"
  nodes :=
    [{ id := .ofNat 1, name := "loop"
       step := .loop { exitCondition := ⟨"x", .isEmpty, .null⟩ } },
      { id := .ofNat 2, name := "choice"
        step := .ifThen ⟨⟨"y", .isEmpty, .null⟩⟩ },
      { id := .ofNat 3, name := "no", step := .typeText {} },
      { id := .ofNat 4, name := "yes", step := .typeText {} },
      { id := .ofNat 5, name := "last", step := .typeText {} },
      { id := .ofNat 6, name := "first", step := .typeText {} },
      { id := .ofNat 7, name := "End loop", step := .endLoop ⟨.ofNat 1⟩ }]
  edges :=
    [⟨.ofNat 3, .ofNat 5, none⟩, ⟨.ofNat 4, .ofNat 7, none⟩,
      ⟨.ofNat 4, .ofNat 6, none⟩, ⟨.ofNat 2, .ofNat 4, some .ifTrue⟩,
      ⟨.ofNat 2, .ofNat 3, some .ifFalse⟩, ⟨.ofNat 4, .ofNat 5, none⟩,
      ⟨.ofNat 4, .ofNat 6, none⟩, ⟨.ofNat 6, .ofNat 2, none⟩,
      ⟨.ofNat 7, .ofNat 1, none⟩, ⟨.ofNat 1, .ofNat 2, some .loopBody⟩]

/-- Each branch stands where the choice puts it, and what follows stands where
the earlier branch puts it. -/
theorem crossing_discoveryOrder :
    crossing.loopBodies.body? (.ofNat 1) = some (crossing.loopBody (.ofNat 1)) ∧
    crossing.IsEntry (.ofNat 1) (.ofNat 2) ∧
    crossing.DiscoveryOrder (.ofNat 1) (.ofNat 2)
      [.ofNat 2, .ofNat 4, .ofNat 3, .ofNat 6, .ofNat 5] ∧
    ∀ ids, crossing.DiscoveryOrder (.ofNat 1) (.ofNat 2) ids →
      ids = [.ofNat 2, .ofNat 4, .ofNat 3, .ofNat 6, .ofNat 5] := by
  have hbody : crossing.loopBodies.body? (.ofNat 1) =
      some (crossing.loopBody (.ofNat 1)) := by decide +kernel
  have hentry : crossing.IsEntry (.ofNat 1) (.ofNat 2) :=
    bodyEntry?_eq_some_iff.1 (by decide +kernel)
  have hlist : (crossing.loopBody (.ofNat 1)).toList =
      [.ofNat 2, .ofNat 4, .ofNat 3, .ofNat 6, .ofNat 5] := by decide +kernel
  obtain ⟨horder, honly, -⟩ := loopBodies_discoveryOrder hbody hentry
  rw [hlist] at horder honly
  exact ⟨hbody, hentry, horder, honly⟩

end Workflow

end Workbench
