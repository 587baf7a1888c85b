import Registrar.Proofs.Rendering
import Registrar.Proofs.Server.Sequence
set_option autoImplicit false

namespace Registrar

namespace Server

variable {set : Settings} {site : Site} {s t : Server} {w : World} {day : Day} {c count : Nat}
  {text : String}

/-- A text that is no day: there is no batch for it, and nothing happens. -/
def Refuses (s : Server) (text : String) : Prop :=
  ∃ fault, ∀ count, s.execute (.allocate count (some text)) =
    (.finished (.error (.badDay text fault)), s)

theorem refuses_of_ofStamp {fault : StampFault} (h : Day.ofStamp text = .error fault) (s : Server) :
    s.Refuses text := by
  refine ⟨fault, fun count => ?_⟩
  unfold execute
  simp only [h]

theorem execute_dated (h : Day.ofStamp text = .ok day) (s : Server) (count : Nat) :
    s.execute (.allocate count (some text)) = s.batch day count := by
  unfold execute
  simp only [h]

theorem Runs.reached {ns : List Nat} (h : Runs day s ns t) : s.Reached t := by
  induction h with
  | stop s => exact .start
  | execute cmd _ _ ih => exact (Reached.execute .start cmd).trans ih
  | advance hd _ _ ih => exact (Reached.advance .start hd).trans ih
  | shutdown _ ih => exact (Reached.shutdown .start).trans ih
  | context hu _ ih => exact (Reached.context .start hu).trans ih

theorem Sound.batch_block (h : s.Sound set site w) (hlive : s.isShutdown = false)
    (ht : 0 < set.timeout.toNat) (hcount : s.count? day = some (c : Int)) (hfits : count < batchLimit)
    (hmax : ((c + count : Nat) : Int) ≤ Numeral.maxInt64) :
    (s.batch day count).1 = .finished (.ok (.identifiers (Identifier.block day c count))) ∧
      (s.batch day count).2.count? day = some ((c + count : Nat) : Int) ∧
      ∀ other, other ≠ day → (s.batch day count).2.count? other = s.count? other := by
  rw [count?_memory h.ready.backend] at hcount
  obtain ⟨m, v, -, hle, hm, hcounts, heq⟩ :=
    allocateMany_counts h.ready h.rooted hlive ht hcount hfits
  obtain rfl : m = count := by omega
  rw [if_pos rfl] at heq
  have hbatch : s.batch day m = (.finished (.ok (.identifiers (Identifier.block day c m))),
      { s with backend := .memory v }) := by rw [batch, heq]
  rw [hbatch]
  refine ⟨rfl, hcounts.count? (s.accounts.allocator.counterTtl_pos h.ready.grace_pos w.clock day)
    hcount hmax, fun other hother => ?_⟩
  have hkey : s.accounts.allocator.counterKey other ≠ s.accounts.allocator.counterKey day := fun he =>
    hother (Allocator.counterKey_inj rfl he)
  rw [count?_memory h.ready.backend, count?_memory rfl, hcounts.now]
  exact Store.count?_congr (Store.find?_congr (hcounts.others _ hkey))

theorem lives_of_count? (h : s.backend = .memory w) (hc : s.count? day = some (c : Int))
    (hpos : 0 < c) : s.Lives day := by
  rw [lives_memory h]
  cases hfind : w.store.find? w.now (s.accounts.allocator.counterKey day) with
  | some e => rfl
  | none =>
    have hzero := Store.count?_of_find?_none hfind
    rw [← count?_memory h, hc, Option.some.injEq] at hzero
    omega

theorem newYear_batch : ∃ s₀ w₀, start unbounded newYearSite = (.ok s₀, []) ∧
    s₀.Sound unbounded newYearSite w₀ ∧ s₀.accounts.allocator = .standard ∧
    (s₀.execute (.allocate 3 (some "20200101"))).1 =
      .finished (.ok (.identifiers (Identifier.block .newYear 0 3))) ∧
    (s₀.execute (.allocate 3 (some "20200101"))).2.isShutdown = false ∧
    (s₀.execute (.allocate 3 (some "20200101"))).2.count? .newYear = some 3 := by
  have hstart : ∃ s₀, start unbounded newYearSite = (.ok s₀, []) ∧
      s₀.accounts.allocator = .standard ∧ s₀.isShutdown = false ∧ s₀.count? .newYear = some 0 ∧
      (s₀.execute (.allocate 3 (some "20200101"))).2.isShutdown = false :=
    ⟨_, rfl, rfl, by decide +kernel, by decide +kernel, by decide +kernel⟩
  obtain ⟨s₀, hstart, hallocator, hlive, hzero, hlive'⟩ := hstart
  have hread : Day.ofStamp "20200101" = .ok .newYear := by decide +kernel
  obtain ⟨w₀, hw₀, -⟩ := sound_start rfl hstart newYearSite_sane
  obtain ⟨hids, hthree, -⟩ :=
    hw₀.batch_block (c := 0) hlive (by decide) hzero (show 3 < batchLimit by decide) (by decide)
  rw [← execute_dated hread] at hids hthree
  exact ⟨s₀, w₀, hstart, hw₀, hallocator, hids, hlive', hthree⟩

/-- The stamp of a day in a four-digit year is read as that day. So the first eight characters of an
identifier ask for a batch of its day, on the counter that has them at the end of its key; and when the
identifier has been printed in a run that this counter has survived, they go on from where the counter
has come to, and leave all other counters alone. What is left of a stamp without its day, and a stamp
that goes on, is refused. -/
theorem stamps_read_back (hday : day.Common) :
    Day.ofStamp day.stamp = .ok day ∧
    (∀ (s : Server) (i : Identifier) (count : Nat), i.day = day →
      s.execute (.allocate count (some i.front)) = s.batch day count ∧
      s.accounts.allocator.counterKey day = s.accounts.allocator.stem ++ i.front) ∧
    (∀ (set : Settings) (site : Site) (s₀ s t : Server) (sent : List Redis.Request) (ns : List Nat),
      set.store.backend = "memory" → start set site = (.ok s₀, sent) → site.clock.Sane →
      0 < set.timeout.toNat → (∀ n day, site.ids n ≠ s₀.accounts.allocator.counterKey day) →
      s₀.Reached s → Runs day s ns t → t.isShutdown = false →
      ∀ i : Identifier, i.day = day → i.number ∈ ns → ∃ c : Nat,
        i.number ≤ c ∧ t.count? day = some (c : Int) ∧
        ∀ count, count < batchLimit → ((c + count : Nat) : Int) ≤ Numeral.maxInt64 →
          (t.execute (.allocate count (some i.front))).1 =
            .finished (.ok (.identifiers (Identifier.block day c count))) ∧
          (t.execute (.allocate count (some i.front))).2.count? day = some ((c + count : Nat) : Int) ∧
          ∀ other, other ≠ day →
            (t.execute (.allocate count (some i.front))).2.count? other = t.count? other) ∧
    (∀ (s : Server) (n : Nat), n < 7 → s.Refuses (String.ofList (day.stampChars.take n))) ∧
    ∀ (s : Server) (rest : String), rest ≠ "" → s.Refuses (day.stamp ++ rest) := by
  have hfront : ∀ i : Identifier, i.day = day → i.front = day.stamp := fun i hi =>
    hi ▸ Identifier.front_eq (hi ▸ hday)
  have hread := Day.ofStamp_stamp hday
  refine ⟨hread, fun s i count hi => ?_, ?_, fun s n hn => ?_, fun s rest hrest => ?_⟩
  · rw [hfront i hi]
    exact ⟨execute_dated hread s count, rfl⟩
  · intro set site s₀ s t sent ns hm hstart hc ht hids hs hr hlive i hi hn
    obtain ⟨w₀, hw₀, hempty⟩ := sound_start hm hstart hc
    obtain ⟨w, hw, haccounts, hcounts⟩ := hs.counts hw₀ hempty ht hids
    rw [← haccounts] at hids hcounts
    obtain ⟨c, hcount⟩ := hcounts day
    obtain ⟨c', hc', hgoes⟩ :=
      hr.goes hw ht hids hcounts ((count?_memory hw.ready.backend day).trans hcount)
    obtain ⟨v, hv⟩ := hr.reached.sound hw
    refine ⟨c', hgoes.le_of_mem hn, hc', fun count hfits hmax => ?_⟩
    rw [hfront i hi, execute_dated hread]
    exact hv.batch_block hlive ht hc' hfits hmax
  · exact refuses_of_ofStamp (Day.ofStamp_take hday hn) s
  · have hrefused := Day.ofStamp_append hday rest
    rw [if_neg hrest] at hrefused
    exact refuses_of_ofStamp hrefused s

theorem stamps_read_back_secondBatch : ∃ s₀, start unbounded newYearSite = (.ok s₀, []) ∧
    (Identifier.mk .newYear 2).front = "20200101" ∧
    ((s₀.execute (.allocate 3 (some "20200101"))).2.execute (.allocate 2 (some "20200101"))).1 =
      .finished (.ok (.identifiers [⟨.newYear, 4⟩, ⟨.newYear, 5⟩])) ∧
    s₀.Refuses "202001" ∧ s₀.Refuses "202001011" := by
  obtain ⟨s₀, w₀, hstart, hw₀, hallocator, hids, hlive, hthree⟩ := newYear_batch
  obtain ⟨-, -, hrun, hcut, hlong⟩ := stamps_read_back (show Day.newYear.Common by decide)
  have hfront : (Identifier.mk .newYear 2).front = "20200101" := by decide +kernel
  have hshort : String.ofList (Day.newYear.stampChars.take 6) = "202001" := by decide +kernel
  have hlonger : Day.newYear.stamp ++ "1" = "202001011" := by decide +kernel
  have hprinted : s₀.printed (.allocate 3 (some "20200101")) = Identifier.block .newYear 0 3 := by
    rw [printed, hids]
    rfl
  obtain ⟨w, hw⟩ := (Reached.execute .start (.allocate 3 (some "20200101"))).sound hw₀
  have hlives := lives_of_count? hw.ready.backend hthree (by decide)
  obtain ⟨c, -, hc, hbatch⟩ := hrun unbounded newYearSite s₀ s₀ _ [] _ rfl hstart newYearSite_sane
    (by decide) (fun n day => hallocator ▸ newYearSite_ne_counterKey n day) .start
    (.execute (.allocate 3 (some "20200101")) (fun _ => hlives) (.stop _)) hlive ⟨.newYear, 2⟩ rfl
    (by rw [hprinted, Identifier.numbers_block]; decide)
  obtain rfl : 3 = c := by exact_mod_cast Option.some.inj (hthree.symm.trans hc)
  refine ⟨s₀, hstart, hfront, ?_, hshort ▸ hcut s₀ 6 (by decide),
    hlonger ▸ hlong s₀ "1" (by decide)⟩
  have hgiven := (hbatch 2 (by decide) (by decide)).1
  rw [hfront] at hgiven
  exact hgiven

end Server

end Registrar
