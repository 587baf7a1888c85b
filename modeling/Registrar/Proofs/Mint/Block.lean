import Registrar.Proofs.Mint.GapFree
import Registrar.Proofs.Mint.Machine
import Registrar.Proofs.Server.Batch
set_option autoImplicit false

namespace Registrar

namespace Identifier

theorem sort_map (day : Day) (ns : List Nat) :
    sort (ns.map fun n => ⟨day, n⟩) = (ns.mergeSort (· ≤ ·)).map fun n => ⟨day, n⟩ := by
  refine (List.map_mergeSort fun m _ n _ => ?_).symm
  simp [le]

theorem sort_map_of_perm (day : Day) {ns : List Nat} {c n : Nat}
    (h : ns.Perm (List.range' (c + 1) n)) : sort (ns.map fun k => ⟨day, k⟩) = block day c n := by
  have hlt : (List.range' (c + 1) n).Pairwise (· < ·) := List.pairwise_lt_range'
  have hsorted : (ns.mergeSort (· ≤ ·)).Pairwise fun a b => decide (a ≤ b) = true :=
    List.pairwise_mergeSort (by simpa using fun _ _ _ => Nat.le_trans)
      (by simpa using Nat.le_total) ns
  have hsort : ns.mergeSort (· ≤ ·) = List.range' (c + 1) n :=
    ((List.mergeSort_perm ns _).trans h).eq_of_pairwise (fun a b _ _ => Nat.le_antisymm)
      (hsorted.imp of_decide_eq_true) (hlt.imp Nat.le_of_lt)
  rw [sort_map, hsort, block]

end Identifier

namespace Crowd

variable {s : Crowd mint} {place : Nat → Place} {key : String} {c : Nat} {day : Day}

/-- The identifiers that those who came to take the counter up have succeeded in getting. -/
def issued (s : Crowd mint) (key : String) : List Identifier :=
  (s.takers key).filterMap fun i => s.result? i >>= Except.toOption

/-- If all who came for a day have succeeded, their identifiers are the block that follows the
counter, whoever came first. -/
theorem Counted.sort_issued (hk : s.Counted key (c : Int) place) (hc : s.Course place)
    (hn : s.Numbered place)
    (hday : ∀ i ∈ s.takers key, ∃ a o, s.role? i = some (.job (.allocate a o)) ∧ o.day? = some day)
    (hall : ∀ i ∈ s.takers key, ∃ id, s.result? i = some (.ok id)) :
    Identifier.sort (s.issued key) = Identifier.block day c (s.takers key).length := by
  have hhanded : ∀ i ∈ s.takers key, ∃ n, s.handed? key i = some n ∧
      s.result? i = some (.ok ⟨day, n⟩) := by
    intro i hi
    obtain ⟨⟨d, n⟩, hid⟩ := hall i hi
    obtain ⟨a, o, he, ho⟩ := hday i hi
    obtain ⟨b, hb, hplace⟩ := hc.ended hid
    obtain ⟨o', he'⟩ := role?_of_allocator hb
    cases he.symm.trans he'
    have hnumber : (place i).number? = some (d, (n : Int)) := by rw [hplace]; rfl
    obtain rfl : d = day := ((hk.dated i a o he).1 day ho).number hnumber
    exact ⟨n, by simp [handed?, hi, hid, Allocator.identifier?], hid⟩
  choose! number hnumber using hhanded
  have hissued : s.issued key = ((s.takers key).map number).map fun n => ⟨day, n⟩ := by
    rw [issued, List.map_map, ← List.filterMap_eq_map]
    refine List.filterMap_congr fun i hi => ?_
    rw [(hnumber i hi).2]
    rfl
  have hlog : ∀ i ∈ s.takers key, (some i, (number i : Int)) ∈ counts key s.log := fun i hi =>
    hk.handed hc hn (hnumber i hi).1
  have hnodup : ((s.takers key).map number).Nodup := by
    refine List.Nodup.map_on (fun i hi j hj hij => ?_) (List.nodup_range.filter _)
    have he := hk.eq_of_number (hlog i hi) (hlog j hj) (congrArg Nat.cast hij)
    exact Option.some.inj (congrArg Prod.fst he)
  have hsub : (s.takers key).map number ⊆ List.range' (c + 1) (s.takers key).length := by
    intro n hmem
    obtain ⟨i, hi, rfl⟩ := List.mem_map.1 hmem
    have hbounds := hk.bounds (hlog i hi)
    have hlength := hk.length_le
    rw [List.mem_range'_1]
    simp only at hbounds
    omega
  rw [hissued]
  refine Identifier.sort_map_of_perm day ((List.subperm_of_subset hnodup hsub).perm_of_length_le ?_)
  exact Nat.le_of_eq (by rw [List.length_range', List.length_map])

end Crowd

end Registrar
