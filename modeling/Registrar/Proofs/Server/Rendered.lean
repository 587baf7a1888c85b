import Registrar.Proofs.Server.Dated
import Registrar.Proofs.Shell
set_option autoImplicit false

namespace Registrar

theorem Output.compact_identifiers {ids : List Identifier} (h : ∀ i ∈ ids, i.day.Common) :
    (Output.identifiers ids).json.compact =
      "\x7b\"ids\":[" ++ ",".intercalate (ids.map fun i => "\"" ++ i.text ++ "\"") ++ "]\x7d" := by
  have hitems : Json.compactItems (ids.map fun i => .text i.text) =
      ids.map fun i => "\"" ++ i.text ++ "\"" := by
    rw [Json.compactItems_eq, List.map_map]
    exact List.map_congr_left fun i hi => Identifier.quoted_text (h i hi)
  have hname : Json.quoted "ids" = "\"ids\"" := by decide +kernel
  rw [Output.json, Json.compact, Json.compactFields_eq, List.map_singleton, String.intercalate_singleton,
    hname, Json.compact, hitems]
  refine String.toList_injective ?_
  simp

namespace Server

variable {s t : Server} {day : Day} {count : Nat} {ids : List Identifier}

theorem allocateMany_pairwise (h : s.allocateMany day count = (.finished (.ok ids), t)) :
    ids.Pairwise fun i j => i.le j = true := by
  by_cases hfits : count < batchLimit
  · rw [allocateMany_eq s day hfits] at h
    have hids := (Prod.mk.inj h).1
    split at hids
    · cases hids
      exact Identifier.pairwise_sort _
    · cases hids
  · rw [allocateMany_crashed s day hfits] at h
    cases h

theorem batch_pairwise (h : (s.batch day count).1 = .finished (.ok (.identifiers ids))) :
    ids.Pairwise fun i j => i.le j = true := by
  unfold batch at h
  split at h
  · rename_i hids
    cases h
    exact allocateMany_pairwise hids
  · cases h
  · cases h
  · cases h

theorem execute_pairwise {c : Command}
    (h : (s.execute c).1 = .finished (.ok (.identifiers ids))) :
    ids.Pairwise fun i j => i.le j = true := by
  cases c with
  | allocate count text =>
    rcases s.execute_allocate count text with ⟨d, hd⟩ | ⟨e, he, hnot⟩
    · exact batch_pairwise (hd ▸ h)
    · exact absurd (congrArg Prod.fst he ▸ h) (hnot _)
  | shell => cases h
  | _ =>
    obtain ⟨a, ha⟩ := request_gives h
    cases ha

/-- Of the days of four-digit years. An identifier's text is the stamp of its day, which is read back
as that day, and its number, of which no digit is missing; so no two identifiers have one text. Days
come in the order of the calendar, and the identifiers of a day in that of their numbers. A batch is in
this order, and as long as all numbers keep to their field it is also the order of the bytes that
are printed. -/
theorem renderings_faithful :
    (∀ i : Identifier, i.day.Common → Day.ofStamp i.front = .ok i.day ∧
      Numeral.nat? i.back.toList = some i.number ∧
      Json.compact (.text i.text) = "\"" ++ i.front ++ i.back ++ "\"") ∧
    (∀ i j : Identifier, i.day.Common → j.day.Common → (i.text = j.text ↔ i = j) ∧
      (i.number < 10 ^ Identifier.width → j.number < 10 ^ Identifier.width →
        (Utf8.encode i.text ≤ Utf8.encode j.text ↔ i.le j = true))) ∧
    (∀ i j : Identifier, i.le j = true ↔
      i.day.number < j.day.number ∨ i.day = j.day ∧ i.number ≤ j.number) ∧
    ∀ (s : Server) (c : Command) (ids : List Identifier),
      (s.execute c).1 = .finished (.ok (.identifiers ids)) →
      ids.Pairwise (fun i j => i.le j = true) ∧
      ((∀ i ∈ ids, i.day.Common ∧ i.number < 10 ^ Identifier.width) → ∃ texts : List String,
        texts = ids.map Identifier.text ∧
        texts.Pairwise (fun a b => Utf8.encode a ≤ Utf8.encode b) ∧
        (Output.identifiers ids).json.compact =
          "\x7b\"ids\":[" ++ ",".intercalate (texts.map fun t => "\"" ++ t ++ "\"") ++ "]\x7d") := by
  refine ⟨fun i hi => ⟨Identifier.ofStamp_front hi, Identifier.nat?_back hi, ?_⟩,
    fun i j hi hj => ⟨⟨Identifier.text_inj hi hj, fun h => h ▸ rfl⟩, Identifier.encode_le_iff hi hj⟩,
    fun i j => Identifier.le_iff, fun s c ids h => ⟨execute_pairwise h, fun hall => ?_⟩⟩
  · rw [Json.compact, Identifier.quoted_text hi, ← Identifier.front_append_back i]
    simp only [String.append_assoc]
  · have hcommon : ∀ i ∈ ids, i.day.Common := fun i hi => (hall i hi).1
    refine ⟨_, rfl, ?_, ?_⟩
    · refine List.pairwise_map.2 ((execute_pairwise h).imp_of_mem fun hi hj hle => ?_)
      exact (Identifier.encode_le_iff (hcommon _ hi) (hcommon _ hj) (hall _ hi).2 (hall _ hj).2).2 hle
    · rw [Output.compact_identifiers hcommon, List.map_map]
      rfl

theorem renderings_faithful_wide :
    ((Identifier.mk .newYear 123456789).text = "20200101123456789" ∧
      Day.ofStamp "20200101" = .ok .newYear ∧ Numeral.nat? "123456789".toList = some 123456789) ∧
    ∃ s₀, start unbounded newYearSite = (.ok s₀, []) ∧
      (s₀.execute (.allocate 3 (some "20200101"))).1 =
        .finished (.ok (.identifiers (Identifier.block .newYear 0 3))) ∧
      ((Identifier.block .newYear 0 3).map Identifier.text).Pairwise
        fun a b => Utf8.encode a ≤ Utf8.encode b := by
  obtain ⟨hread, -, -, hbatch⟩ := renderings_faithful
  have hday : Day.newYear.Common := by decide
  have hfront : (Identifier.mk .newYear 123456789).front = "20200101" := by decide +kernel
  have hback : (Identifier.mk .newYear 123456789).back = "123456789" := by decide +kernel
  obtain ⟨hstamp, hnumber, -⟩ := hread ⟨.newYear, 123456789⟩ hday
  rw [hfront] at hstamp
  rw [hback] at hnumber
  obtain ⟨s₀, -, hstart, -, -, hids, -⟩ := newYear_batch
  obtain ⟨-, hsorted⟩ := hbatch s₀ _ _ hids
  obtain ⟨texts, htexts, hpairwise, -⟩ := hsorted (by decide)
  exact ⟨⟨by decide +kernel, hstamp, hnumber⟩, s₀, hstart, hids, htexts ▸ hpairwise⟩

end Server

end Registrar
