import Mathlib.Algebra.GroupWithZero.Nat
import Registrar.Backend
/-!
How a lock is claimed from a Redis server. The claims of one call are told one after another, with
what was heard of each and the wait after it (`Claims`); all else is read off that. Main statement:
each claim sends the same words, the call ends with the first reply that is not nil or once its
patience is spent, and the waits double within their bounds, so no claim comes much later than
that (`lock_claims`).
-/
set_option autoImplicit false

namespace Registrar

def Settings.Locking.terms (s : Settings.Locking) : Redis.LockTerms where
  lease := .ofMillis s.lease.toNat
  patience := .ofMillis s.patience.toNat
  firstWait := .ofMillis s.firstWait.toNat
  longestWait := .ofMillis s.longestWait.toNat

theorem Tick.after_eq {t : Tick} {d : Span} (h : t + d < limit) : t.after d = t + d := by
  rw [after, after?, if_pos h]
  rfl

theorem Tick.after_zero {t : Tick} (h : t < limit) : t.after 0 = t := after_eq h

namespace Redis

/-- The waits between the claims of one call as they would be without jitter. -/
def LockTerms.base (t : LockTerms) : Nat → Span
  | 0 => t.firstWait
  | k + 1 => t.nextWait (t.base k)

def LockTerms.longest (t : LockTerms) : Span := max t.firstWait t.longestWait

def LockTerms.shortest (t : LockTerms) : Span := min t.firstWait t.longestWait

theorem LockTerms.base_bounds (t : LockTerms) (k : Nat) :
    t.shortest ≤ t.base k ∧ t.base k ≤ t.longest := by
  induction k with
  | zero => exact ⟨Nat.min_le_left _ _, Nat.le_max_left _ _⟩
  | succ k ih =>
    unfold base nextWait
    unfold shortest longest at ih ⊢
    lia

namespace Link

def coming (l : Link) : Delivery := l.script.headD exhausted

def hear (l : Link) (r : Request) : Link :=
  { l with sent := r :: l.sent, script := l.script.tail, elapsed := l.elapsed.after l.coming.latency }

def lengthened (l : Link) (wait : Span) : Span :=
  wait + Span.ofMillis (l.jitter l.draws % (jitterBound wait + 1))

def rested (l : Link) (wait : Span) : Link :=
  { l with
    draws := l.draws + 1
    waits := l.lengthened wait :: l.waits
    elapsed := l.elapsed.after (l.lengthened wait) }

theorem lengthened_bounds (l : Link) (wait : Span) :
    wait ≤ l.lengthened wait ∧ l.lengthened wait ≤ wait + wait / 2 := by
  have hdraw : l.jitter l.draws % (jitterBound wait + 1) ≤ jitterBound wait :=
    Nat.le_of_lt_succ (Nat.mod_lt _ (Nat.succ_pos _))
  have hbound : jitterBound wait ≤ wait / 1000000 / 2 :=
    Nat.div_le_div_right (Nat.mod_le _ _)
  unfold lengthened Span.ofMillis
  lia

def ruling (token : LockToken) (deadline now : Tick) (reply : Reply) :
    Option (Except LockError LockToken) :=
  match reply.read granted? with
  | .error e => some (.error (.unavailable e.message))
  | .ok true => some (.ok token)
  | .ok false => if deadline ≤ now then some (.error (.timeout token.name)) else none

theorem read_granted_eq_false {reply : Reply} (h : reply.read granted? = .ok false) :
    reply = .nil := by
  cases reply <;> first | rfl | cases h

theorem nil_of_ruling_eq_none {token : LockToken} {deadline now : Tick} {reply : Reply}
    (h : ruling token deadline now reply = none) : reply = .nil ∧ now < deadline := by
  unfold ruling at h
  split at h
  · cases h
  · cases h
  · rename_i hr
    split at h
    · cases h
    · rename_i hlate
      exact ⟨read_granted_eq_false hr, Nat.lt_of_not_le hlate⟩

/-- The claims of one call: the replies to them and the waits in between. -/
inductive Claims (t : LockTerms) (token : LockToken) (r : Request) (deadline : Tick) :
    Nat → Link → List Delivery → List Span → Except LockError LockToken → Link → Prop where
  | last {k : Nat} {l : Link} {o : Except LockError LockToken}
      (ho : ruling token deadline (l.hear r).elapsed l.coming.reply = some o) :
      Claims t token r deadline k l [l.coming] [] o (l.hear r)
  | again {k : Nat} {l m : Link} {heard : List Delivery} {waits : List Span}
      {o : Except LockError LockToken}
      (hn : ruling token deadline (l.hear r).elapsed l.coming.reply = none)
      (hs : Claims t token r deadline (k + 1) ((l.hear r).rested (t.base k)) heard waits o m) :
      Claims t token r deadline k l (l.coming :: heard) ((l.hear r).lengthened (t.base k) :: waits) o m

section

variable {t : LockTerms} {token : LockToken} {r : Request} {deadline : Tick}

theorem claim_eq (l : Link) (wait : Span) :
    claim t token r deadline none wait l.script l =
      match ruling token deadline (l.hear r).elapsed l.coming.reply with
      | some o => (.reached o, l.hear r)
      | none => claim t token r deadline none (t.nextWait wait) ((l.hear r).rested wait).script
          ((l.hear r).rested wait) := by
  obtain ⟨clock, elapsed, script, sent, waits, jitter, draws, holders, signals, ids, minted, keySpace,
    lockSpace, terms⟩ := l
  cases script with
  | nil => rfl
  | cons d rest =>
    simp only [claim, receive, Link.wait, ruling, coming, hear, List.headD_cons, List.tail_cons, if_true]
    cases d.reply.read granted? with
    | error e => rfl
    | ok granted =>
      cases granted with
      | true => rfl
      | false => by_cases hlate : deadline ≤ elapsed.after d.latency <;> simp only [hlate] <;> rfl

theorem exists_claims (k : Nat) (l : Link) : ∃ heard waits o m,
    claim t token r deadline none (t.base k) l.script l = (.reached o, m) ∧
      Claims t token r deadline k l heard waits o m := by
  generalize hs : l.script = script
  induction script generalizing k l with
  | nil =>
    have hend : ruling token deadline (l.hear r).elapsed l.coming.reply =
        some (.error (.unavailable exhaustedText)) := by
      rw [coming, hs]
      rfl
    refine ⟨_, _, _, _, ?_, .last hend⟩
    rw [← hs, claim_eq, hend]
  | cons d rest ih =>
    rw [← hs, claim_eq]
    cases ho : ruling token deadline (l.hear r).elapsed l.coming.reply with
    | some o => exact ⟨_, _, o, _, rfl, .last ho⟩
    | none =>
      have hrest : ((l.hear r).rested (t.base k)).script = rest := congrArg List.tail hs
      obtain ⟨heard, waits, o, m, hclaim, hclaims⟩ := ih (k + 1) _ hrest
      refine ⟨_, _, o, m, ?_, .again ho hclaims⟩
      rw [← hclaim, hrest]
      rfl

namespace Claims

variable {k : Nat} {l m : Link} {heard : List Delivery} {waits : List Span}
  {o : Except LockError LockToken}

theorem sent (h : Claims t token r deadline k l heard waits o m) :
    m.sent = List.replicate heard.length r ++ l.sent := by
  induction h with
  | last ho => rfl
  | again hn hs ih =>
    rw [ih, List.length_cons, List.replicate_succ', List.append_assoc]
    rfl

theorem waited (h : Claims t token r deadline k l heard waits o m) :
    m.waits = waits.reverse ++ l.waits := by
  induction h with
  | last ho => rfl
  | again hn hs ih =>
    rw [ih, List.reverse_cons, List.append_assoc]
    rfl

theorem length_heard (h : Claims t token r deadline k l heard waits o m) :
    heard.length = waits.length + 1 := by
  induction h with
  | last ho => rfl
  | again hn hs ih => rw [List.length_cons, List.length_cons, ih]

theorem heard_script (h : Claims t token r deadline k l heard waits o m) :
    heard ++ m.script = l.script ∨ heard = l.script ++ [exhausted] ∧ m.script = [] := by
  induction h with
  | @last k l o ho =>
    cases hs : l.script with
    | nil => exact .inr ⟨by simp [coming, hs], by simp [hear, hs]⟩
    | cons d rest => exact .inl (by simp [coming, hear, hs])
  | @again k l m heard waits o hn hs ih =>
    cases hscript : l.script with
    | nil =>
      rw [coming, hscript] at hn
      cases hn
    | cons d rest =>
      have hrest : ((l.hear r).rested (t.base k)).script = rest := congrArg List.tail hscript
      rw [hrest] at ih
      have hd : l.coming = d := by rw [coming, hscript]; rfl
      rw [hd]
      exact ih.imp (congrArg (d :: ·)) (And.imp_left (congrArg (d :: ·)))

theorem wait_bounds (h : Claims t token r deadline k l heard waits o m) {i : Nat} {w : Span}
    (hw : waits[i]? = some w) : t.base (k + i) ≤ w ∧ w ≤ t.base (k + i) + t.base (k + i) / 2 := by
  induction h generalizing i with
  | last ho => cases hw
  | @again k l m heard waits o hn hs ih =>
    cases i with
    | zero =>
      cases hw
      exact lengthened_bounds _ _
    | succ i =>
      rw [List.getElem?_cons_succ] at hw
      rw [show k + (i + 1) = k + 1 + i from by omega]
      exact ih hw

theorem outcome (h : Claims t token r deadline k l heard waits o m) :
    ∃ nils last, heard = nils ++ [last] ∧ (∀ d ∈ nils, d.reply = .nil) ∧
      ruling token deadline m.elapsed last.reply = some o := by
  induction h with
  | @last k l o ho => exact ⟨[], l.coming, rfl, by simp, ho⟩
  | @again k l m heard waits o hn hs ih =>
    obtain ⟨nils, last, rfl, hnils, ho⟩ := ih
    refine ⟨l.coming :: nils, last, rfl, fun d hd => ?_, ho⟩
    rcases List.mem_cons.1 hd with rfl | hd
    · exact (nil_of_ruling_eq_none hn).1
    · exact hnils d hd

def Roomy (t : LockTerms) (deadline : Tick) : Prop :=
  deadline + (t.longest + t.longest / 2) < Tick.limit

theorem rested_fits {k : Nat} {l : Link}
    (hn : ruling token deadline (l.hear r).elapsed l.coming.reply = none) (hroom : Roomy t deadline) :
    (l.hear r).elapsed + (l.hear r).lengthened (t.base k) < Tick.limit := by
  have hbefore := (nil_of_ruling_eq_none hn).2
  have hwait := (lengthened_bounds (l.hear r) (t.base k)).2
  have hbase := (t.base_bounds k).2
  unfold Roomy at hroom
  lia

theorem elapsed_rested {k : Nat} {l : Link}
    (hn : ruling token deadline (l.hear r).elapsed l.coming.reply = none) (hroom : Roomy t deadline) :
    ((l.hear r).rested (t.base k)).elapsed =
      (l.hear r).elapsed + (l.hear r).lengthened (t.base k) :=
  Tick.after_eq (rested_fits hn hroom)

theorem elapsed_eq (h : Claims t token r deadline k l heard waits o m) (hroom : Roomy t deadline)
    (hl : l.elapsed < Tick.limit) (hzero : ∀ d ∈ heard, d.latency = 0) :
    m.elapsed = l.elapsed + waits.sum := by
  have hhear : ∀ l : Link, l.elapsed < Tick.limit → l.coming.latency = 0 →
      (l.hear r).elapsed = l.elapsed := by
    intro l hl hlat
    change l.elapsed.after l.coming.latency = l.elapsed
    rw [hlat, Tick.after_zero hl]
  induction h with
  | last ho =>
    rw [hhear _ hl (hzero _ (List.mem_singleton_self _)), List.sum_nil, Nat.add_zero]
  | @again k l m heard waits o hn hs ih =>
    have hnow := hhear l hl (hzero _ List.mem_cons_self)
    have hrested := elapsed_rested (k := k) hn hroom
    have hfits : ((l.hear r).rested (t.base k)).elapsed < Tick.limit := by
      rw [hrested]
      exact rested_fits hn hroom
    rw [ih hfits fun d hd => hzero d (List.mem_cons_of_mem _ hd), hrested, hnow, List.sum_cons,
      Nat.add_assoc]

theorem early (h : Claims t token r deadline k l heard waits o m) (hroom : Roomy t deadline)
    {i : Nat} (hi : i < waits.length) : l.elapsed + (waits.take i).sum < deadline := by
  induction h generalizing i with
  | last ho => cases hi
  | @again k l m heard waits o hn hs ih =>
    have hbefore := (nil_of_ruling_eq_none hn).2
    have hheard : l.elapsed ≤ (l.hear r).elapsed := Tick.le_after _ _
    cases i with
    | zero =>
      rw [List.take_zero, List.sum_nil, Nat.add_zero]
      exact Nat.lt_of_le_of_lt hheard hbefore
    | succ i =>
      have hlater := ih (Nat.lt_of_succ_lt_succ hi)
      rw [elapsed_rested hn hroom] at hlater
      rw [List.take_succ_cons, List.sum_cons]
      lia

theorem sum_take_le (h : Claims t token r deadline 0 l heard waits o m) (hroom : Roomy t deadline)
    {i : Nat} (hi : i ≤ waits.length) (hl : l.elapsed ≤ deadline) :
    l.elapsed + (waits.take i).sum ≤ deadline + (t.longest + t.longest / 2) := by
  cases i with
  | zero =>
    rw [List.take_zero, List.sum_nil, Nat.add_zero]
    exact Nat.le_trans hl (Nat.le_add_right _ _)
  | succ i =>
    have hw : waits[i]? = some waits[i] := List.getElem?_eq_getElem hi
    have hlast := (h.wait_bounds hw).2
    have hbase := (t.base_bounds (0 + i)).2
    have hbefore := h.early hroom hi
    rw [← List.take_append_getElem hi, List.sum_append, List.sum_singleton]
    lia

theorem length_le (h : Claims t token r deadline 0 l heard waits o m) (hroom : Roomy t deadline)
    {patience : Span} (hd : deadline = l.elapsed + patience) (hpos : 0 < t.shortest) :
    heard.length ≤ patience / t.shortest + 2 := by
  have hsum : ∀ i ≤ waits.length, i * t.shortest ≤ (waits.take i).sum := by
    intro i hi
    induction i with
    | zero => simp
    | succ i ih =>
      have hw : waits[i]? = some waits[i] := List.getElem?_eq_getElem hi
      have hlow := (h.wait_bounds hw).1
      have hbase := (t.base_bounds (0 + i)).1
      have hrest := ih (Nat.le_of_succ_le hi)
      rw [← List.take_append_getElem hi, List.sum_append, List.sum_singleton, Nat.succ_mul]
      lia
  rw [h.length_heard]
  cases hn : waits.length with
  | zero => lia
  | succ i =>
    have hi : i < waits.length := by rw [hn]; exact Nat.lt_succ_self i
    have hbefore := h.early hroom hi
    have hlow := hsum i (Nat.le_of_lt hi)
    have hquot : i ≤ patience / t.shortest := by
      rw [Nat.le_div_iff_mul_le hpos]
      lia
    lia

end Claims

end

/-- How a call for a lock goes: the replies to its claims, and the waits in between. -/
structure Claimed (s : Settings.Locking) (l : Link) (name : String) (o : Except LockError LockToken)
    (m : Link) (heard : List Delivery) (waits : List Span) : Prop where
  /-- All claims are one and the same. -/
  sent : ∃ r : Request, m.sent = List.replicate heard.length r ++ l.sent ∧
    ∀ label, r.words label = ["SET", l.lockKey name, label (.issued l.holders), "NX", "PX",
      String.ofList (Numeral.decimal s.lease.toNat)]
  script : heard ++ m.script = l.script ∨ heard = l.script ++ [exhausted] ∧ m.script = []
  /-- Only the last reply can be other than nil, and it decides. -/
  decided : ∃ nils last, heard = nils ++ [last] ∧ (∀ d ∈ nils, d.reply = .nil) ∧
    (∀ text, last.reply.text? = some (some text) → o = .ok ⟨name, .issued l.holders⟩) ∧
    (last.reply.text? = none → ∃ reason, o = .error (.unavailable reason)) ∧
    (last.reply = .nil → o = .error (.timeout name) ∧ l.elapsed + s.terms.patience ≤ m.elapsed)
  waited : m.waits = waits.reverse ++ l.waits ∧ heard.length = waits.length + 1
  bounds : ∀ k w, waits[k]? = some w →
    s.terms.base k ≤ w ∧ w ≤ s.terms.base k + s.terms.base k / 2
  /-- However the replies go on, there is a last claim. -/
  few : 0 < s.firstWait → 0 < s.longestWait →
    heard.length ≤ s.terms.patience / s.terms.shortest + 2
  /-- Where replies take no time, each claim is sent when the waits before it are over. -/
  soon : (∀ d ∈ heard, d.latency = 0) → m.elapsed = l.elapsed + waits.sum ∧
    ∀ k ≤ waits.length,
      (waits.take k).sum ≤ s.terms.patience + (s.terms.longest + s.terms.longest / 2)

section

variable {token : LockToken} {deadline now : Tick} {reply : Reply} {o : Except LockError LockToken}

theorem ruling_text {text : String} (h : reply.text? = some (some text)) :
    ruling token deadline now reply = some (.ok token) := by
  cases reply <;> first | rfl | cases h

theorem ruling_no_text (h : reply.text? = none) :
    ∃ reason, ruling token deadline now reply = some (.error (.unavailable reason)) := by
  cases reply <;> first | exact ⟨_, rfl⟩ | cases h

theorem ruling_nil (h : ruling token deadline now .nil = some o) :
    o = .error (.timeout token.name) ∧ deadline ≤ now := by
  have hnil : ruling token deadline now .nil =
      if deadline ≤ now then some (.error (.timeout token.name)) else none := rfl
  rw [hnil] at h
  split at h
  · rename_i hlate
    exact ⟨(Option.some.inj h).symm, hlate⟩
  · cases h

end

end Link

theorem wholeMillis_ofMillis (n : UInt64) :
    (Span.ofMillis n.toNat).wholeMillis % Numeral.range64 = n.toNat := by
  have hlt := n.toNat_lt
  unfold Span.ofMillis Span.wholeMillis Numeral.range64
  omega

theorem ofMillis_toNat_lt (n : UInt64) : Span.ofMillis n.toNat < Span.ofMillis Numeral.range64 :=
  Nat.mul_lt_mul_of_pos_right n.toNat_lt (by decide)

theorem LockTerms.shortest_pos {s : Settings.Locking} (hf : 0 < s.firstWait)
    (hl : 0 < s.longestWait) : 0 < s.terms.shortest := by
  have hfirst : 0 < Span.ofMillis s.firstWait.toNat :=
    Nat.mul_pos (UInt64.lt_iff_toNat_lt.1 hf) (by decide)
  have hlongest : 0 < Span.ofMillis s.longestWait.toNat :=
    Nat.mul_pos (UInt64.lt_iff_toNat_lt.1 hl) (by decide)
  exact Nat.lt_min.2 ⟨hfirst, hlongest⟩

namespace Link

/-- Under terms of whole milliseconds each call for a lock comes to an end in which it is answered,
as long as the clock has room for the longest of them. -/
theorem lock_claims {s : Settings.Locking} {l : Link} (name : String) (ht : l.terms = s.terms)
    (hroom : l.elapsed + 3 * Span.ofMillis Numeral.range64 ≤ Tick.limit) :
    ∃ o m heard waits, l.lock none name = (.reached o, m) ∧ Claimed s l name o m heard waits := by
  have hpatience := ofMillis_toNat_lt s.patience
  have hlongest : s.terms.longest < Span.ofMillis Numeral.range64 :=
    Nat.max_lt.2 ⟨ofMillis_toNat_lt s.firstWait, ofMillis_toNat_lt s.longestWait⟩
  have hdeadline : l.elapsed.after? l.terms.patience = some (l.elapsed + s.terms.patience) := by
    rw [ht, Tick.after?, if_pos]
    change l.elapsed + Span.ofMillis s.patience.toNat < Tick.limit
    lia
  have hfits : Claims.Roomy s.terms (l.elapsed + s.terms.patience) := by
    unfold Claims.Roomy
    change l.elapsed + Span.ofMillis s.patience.toNat + _ < Tick.limit
    lia
  have hnow : l.elapsed < Tick.limit := by lia
  generalize hr : Request.claim (l.lockKey name) (.issued l.holders) s.lease.toNat = r
  let token : LockToken := ⟨name, .issued l.holders⟩
  let deadline : Tick := l.elapsed + s.terms.patience
  obtain ⟨heard, waits, o, m, hclaim, h⟩ := @exists_claims s.terms token r deadline 0
    { l with holders := l.holders + 1 }
  have hlock : l.lock none name = (.reached o, m) := by
    rw [← hclaim, ← hr, lock, hdeadline, ht]
    simp only
    congr 2
    exact wholeMillis_ofMillis s.lease
  obtain ⟨nils, last, hheard, hnils, hruling⟩ := h.outcome
  refine ⟨o, m, heard, waits, hlock, ⟨r, h.sent, fun label => by rw [← hr]; rfl⟩, h.heard_script,
    ⟨nils, last, hheard, hnils, ?_, ?_, ?_⟩, ⟨h.waited, h.length_heard⟩, ?_, ?_, ?_⟩
  · intro text htext
    rw [ruling_text htext] at hruling
    exact (Option.some.inj hruling).symm
  · intro hnone
    obtain ⟨reason, hreason⟩ := ruling_no_text hnone
    rw [hreason] at hruling
    exact ⟨reason, (Option.some.inj hruling).symm⟩
  · intro hnil
    rw [hnil] at hruling
    exact ruling_nil hruling
  · intro k w hw
    have hbounds := h.wait_bounds hw
    rwa [Nat.zero_add] at hbounds
  · intro hf hl
    exact h.length_le hfits rfl (LockTerms.shortest_pos hf hl)
  · intro hzero
    refine ⟨h.elapsed_eq hfits hnow hzero, fun k hk => ?_⟩
    have hsum := h.sum_take_le hfits hk (Nat.le_add_right _ _)
    change l.elapsed + _ ≤ _ at hsum
    lia

def brief : Settings.Locking := ⟨8000, 4000, 1, 2⟩

/-- A server that refuses two claims and grants the third. -/
def thirdTime : Link where
  clock := ⟨0, .utc, 0⟩
  elapsed := 0
  script := [⟨0, .nil⟩, ⟨0, .nil⟩, ⟨0, .simple "OK"⟩]
  sent := []
  waits := []
  jitter n := n
  draws := 0
  holders := 0
  signals := .none
  ids n := toString n
  minted := 0
  keySpace := ""
  lockSpace := "lock"
  terms := brief.terms

theorem lock_claims_thirdTime : ∃ m heard waits,
    thirdTime.lock none "seq" = (.reached (.ok ⟨"seq", .issued 0⟩), m) ∧ heard.length = 3 ∧
      Claimed brief thirdTime "seq" (.ok ⟨"seq", .issued 0⟩) m heard waits := by
  obtain ⟨o, m, heard, waits, hlock, h⟩ := lock_claims (s := brief) (l := thirdTime) "seq" rfl
    (by decide)
  have hupshot : Upshot.reached o = .reached (.ok ⟨"seq", .issued 0⟩) :=
    (congrArg Prod.fst hlock).symm
  have hsent : m.sent.length = 3 := congrArg (fun r => r.2.sent.length) hlock.symm
  cases hupshot
  obtain ⟨r, hr, -⟩ := h.sent
  rw [hr, List.length_append, List.length_replicate] at hsent
  exact ⟨m, heard, waits, hlock, hsent, h⟩

end Link

end Redis

end Registrar
