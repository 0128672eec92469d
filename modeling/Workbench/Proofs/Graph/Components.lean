import Workbench.Graph.Connectivity
import Workbench.Proofs.Graph.Reach

/-!
# Walks from every vertex find the components

Walks are taken from a list of starts, one after another, and all of them share
the vertices seen. Where arcs go both ways, the vertices seen are closed under
arcs after every walk, and that one invariant carries everything: a start not
seen before lies in a component none of whose vertices has been seen, so its
walk meets no mark on its way and visits the whole component, and the marks are
closed again.
-/

namespace Workbench.Arcs

variable {arcs : Arcs Uuid} {seen starts : List Uuid}

/-- No arc leads out of the vertices seen. -/
def Closed (arcs : Arcs Uuid) (seen : List Uuid) : Prop :=
  ∀ a b, (a, b) ∈ arcs → a ∈ seen → b ∈ seen

theorem walks_cons_of_mem {start : Uuid} (h : start ∈ seen) :
    arcs.walks seen (start :: starts) = arcs.walks seen starts := by
  rw [walks, if_pos (by simpa using h)]

theorem walks_cons_of_not_mem {start : Uuid} (h : start ∉ seen) :
    arcs.walks seen (start :: starts) =
      arcs.walk (start :: seen) [start] ::
        arcs.walks (arcs.walk (start :: seen) [start] ++ seen) starts := by
  rw [walks, if_neg (by simpa using h)]

theorem mem_walk_start {start : Uuid} :
    start ∈ arcs.walk (start :: seen) [start] :=
  mem_walk_of_mem_queue (List.mem_cons_self ..)

/-- Each of the walks finds the marks as the ones before it have left them, so
whatever holds of the first marks and is kept by a walk holds of the marks that
it finds. -/
theorem exists_walk_of_mem_walks {holds : List Uuid → Prop} {c : List Uuid}
    (hkept : ∀ start marks, start ∉ marks → holds marks →
      holds (arcs.walk (start :: marks) [start] ++ marks))
    (hseen : holds seen) (hc : c ∈ arcs.walks seen starts) :
    ∃ start ∈ starts, ∃ marks, start ∉ marks ∧ holds marks ∧
      c = arcs.walk (start :: marks) [start] := by
  induction starts generalizing seen with
  | nil => cases hc
  | cons start rest ih =>
      by_cases hstart : start ∈ seen
      · rw [walks_cons_of_mem hstart] at hc
        obtain ⟨s, hs, hwalk⟩ := ih hseen hc
        exact ⟨s, List.mem_cons_of_mem _ hs, hwalk⟩
      · rw [walks_cons_of_not_mem hstart] at hc
        rcases List.mem_cons.1 hc with rfl | hc
        · exact ⟨start, List.mem_cons_self .., seen, hstart, hseen, rfl⟩
        · obtain ⟨s, hs, hwalk⟩ := ih (hkept start seen hstart hseen) hc
          exact ⟨s, List.mem_cons_of_mem _ hs, hwalk⟩

theorem not_mem_seen_of_mem_walks {c : List Uuid}
    (hc : c ∈ arcs.walks seen starts) {v : Uuid} (hv : v ∈ c) : v ∉ seen := by
  have hkept : ∀ start marks, start ∉ marks → (∀ x ∈ seen, x ∈ marks) →
      ∀ x ∈ seen, x ∈ arcs.walk (start :: marks) [start] ++ marks :=
    fun start marks _ hsub x hx => List.mem_append_right _ (hsub x hx)
  obtain ⟨start, _, marks, hstart, hsub, rfl⟩ :=
    exists_walk_of_mem_walks hkept (fun _ hx => hx) hc
  rcases mem_queue_or_not_mem_seen hv with h | h
  · rw [List.mem_singleton.1 h]
    exact fun hseen => hstart (hsub start hseen)
  · exact fun hseen => h (List.mem_cons_of_mem _ (hsub v hseen))

theorem nodup_of_mem_walks {c : List Uuid} (hc : c ∈ arcs.walks seen starts) :
    c.Nodup := by
  obtain ⟨start, _, marks, _, _, rfl⟩ :=
    @exists_walk_of_mem_walks arcs seen starts (fun _ => True) c
      (fun _ _ _ h => h) .intro hc
  exact nodup_walk (List.pairwise_singleton _ _) (by simp)

theorem exists_mem_walks {s : Uuid} (hs : s ∈ starts) :
    s ∈ seen ∨ ∃ c ∈ arcs.walks seen starts, s ∈ c := by
  induction starts generalizing seen with
  | nil => cases hs
  | cons start rest ih =>
      by_cases hstart : start ∈ seen
      · rw [walks_cons_of_mem hstart]
        rcases List.mem_cons.1 hs with rfl | hs
        · exact .inl hstart
        · exact ih hs
      · rw [walks_cons_of_not_mem hstart]
        rcases List.mem_cons.1 hs with rfl | hs
        · exact .inr ⟨_, List.mem_cons_self .., mem_walk_start⟩
        · rcases ih hs with h | h
          · rcases List.mem_append.1 h with h | h
            · exact .inr ⟨_, List.mem_cons_self .., h⟩
            · exact .inl h
          · obtain ⟨c, hc, hmem⟩ := h
            exact .inr ⟨c, List.mem_cons_of_mem _ hc, hmem⟩

/-- The walks come in the order of the first starts that they visit. -/
theorem pairwise_walks :
    (arcs.walks seen starts).Pairwise
      fun c d => starts.findIdx (· ∈ c) < starts.findIdx (· ∈ d) := by
  have hskip : ∀ {start : Uuid} {rest c : List Uuid}, start ∉ c →
      (start :: rest).findIdx (· ∈ c) = rest.findIdx (· ∈ c) + 1 := by
    intro start rest c h
    rw [List.findIdx_cons, decide_eq_false h]
    rfl
  induction starts generalizing seen with
  | nil => exact .nil
  | cons start rest ih =>
      by_cases hstart : start ∈ seen
      · rw [walks_cons_of_mem hstart]
        have hnot : ∀ c ∈ arcs.walks seen rest, start ∉ c :=
          fun c hc hmem => not_mem_seen_of_mem_walks hc hmem hstart
        refine List.Pairwise.imp_of_mem ?_ ih
        intro c d hc hd hlt
        rw [hskip (hnot c hc), hskip (hnot d hd)]
        omega
      · rw [walks_cons_of_not_mem hstart]
        have hnot : ∀ c ∈ arcs.walks (arcs.walk (start :: seen) [start] ++
            seen) rest, start ∉ c :=
          fun c hc hmem =>
            not_mem_seen_of_mem_walks hc hmem
              (List.mem_append_left _ mem_walk_start)
        refine List.pairwise_cons.2
          ⟨fun d hd => ?_, List.Pairwise.imp_of_mem ?_ ih⟩
        · rw [List.findIdx_cons, decide_eq_true mem_walk_start,
            hskip (hnot d hd)]
          exact Nat.succ_pos _
        · intro c d hc hd hlt
          rw [hskip (hnot c hc), hskip (hnot d hd)]
          omega

/-! ## Arcs that go both ways -/

section

variable (hsymm : ∀ a b, (a, b) ∈ arcs → (b, a) ∈ arcs)

include hsymm

theorem Reaches.symm {a b : Uuid} (h : arcs.Reaches [] a b) :
    arcs.Reaches [] b a := by
  induction h with
  | refl => exact .refl
  | tail _ hopen ih => exact .head ⟨hsymm _ _ hopen.1, List.not_mem_nil⟩ ih

/-- From outside of closed marks no path meets them, as it could be gone
back. -/
theorem reaches_iff_of_closed (hclosed : arcs.Closed seen) {a v : Uuid}
    (ha : a ∉ seen) : arcs.Reaches seen a v ↔ arcs.Reaches [] a v := by
  refine ⟨?_, ?_⟩
  · exact fun h => h.mono fun _ hx => absurd hx List.not_mem_nil
  · intro h
    have hboth : arcs.Reaches seen a v ∧ v ∉ seen := by
      induction h with
      | refl => exact ⟨.refl, ha⟩
      | @tail b c _ hopen ih =>
          have hc : c ∉ seen :=
            fun hc => ih.2 (hclosed c b (hsymm b c hopen.1) hc)
          exact ⟨ih.1.tail ⟨hopen.1, hc⟩, hc⟩
    exact hboth.1

theorem mem_walk_iff_of_closed (hclosed : arcs.Closed seen) {a v : Uuid}
    (ha : a ∉ seen) : v ∈ arcs.walk (a :: seen) [a] ↔ arcs.Reaches [] a v := by
  rw [mem_walk_start_iff, reaches_iff_of_closed hsymm hclosed ha]

theorem Closed.append_walk (hclosed : arcs.Closed seen) {start : Uuid}
    (hstart : start ∉ seen) :
    arcs.Closed (arcs.walk (start :: seen) [start] ++ seen) := by
  intro a b harc ha
  rcases List.mem_append.1 ha with ha | ha
  · refine List.mem_append_left _ ?_
    rw [mem_walk_iff_of_closed hsymm hclosed hstart] at ha ⊢
    exact ha.tail ⟨harc, List.not_mem_nil⟩
  · exact List.mem_append_right _ (hclosed a b harc ha)

/-- Each walk visits exactly what its start reaches. -/
theorem exists_start_of_mem_walks (hclosed : arcs.Closed seen) {c : List Uuid}
    (hc : c ∈ arcs.walks seen starts) :
    ∃ start ∈ starts, ∀ v, v ∈ c ↔ arcs.Reaches [] start v := by
  have hkept : ∀ start marks, start ∉ marks → arcs.Closed marks →
      arcs.Closed (arcs.walk (start :: marks) [start] ++ marks) :=
    fun _ _ hstart hmarks => hmarks.append_walk hsymm hstart
  obtain ⟨start, hmem, marks, hstart, hmarks, rfl⟩ :=
    exists_walk_of_mem_walks hkept hclosed hc
  exact ⟨start, hmem, fun v => mem_walk_iff_of_closed hsymm hmarks hstart⟩

end

/-! ## Other names for the vertices -/

theorem walks_relabel {f : Uuid → Uuid} (hf : Function.Injective f)
    (seen starts : List Uuid) :
    (arcs.relabel f).walks (seen.map f) (starts.map f) =
      (arcs.walks seen starts).map (·.map f) := by
  induction starts generalizing seen with
  | nil => rfl
  | cons start rest ih =>
      by_cases hstart : start ∈ seen
      · rw [List.map_cons,
          walks_cons_of_mem ((List.mem_map_of_injective hf).2 hstart),
          walks_cons_of_mem hstart, ih]
      · have hwalk : (arcs.relabel f).walk (f start :: seen.map f) [f start] =
            (arcs.walk (start :: seen) [start]).map f :=
          walk_relabel hf (start :: seen) [start]
        rw [List.map_cons,
          walks_cons_of_not_mem (mt (List.mem_map_of_injective hf).1 hstart),
          walks_cons_of_not_mem hstart, hwalk, ← List.map_append, ih,
          List.map_cons]

end Workbench.Arcs
