import Mathlib.Data.Set.Card
import PlatformSnapshot.Proofs.Processor.Layout
import PlatformSnapshot.Proofs.Processor.Record
import PlatformSnapshot.Proofs.Processor.Runs
import PlatformSnapshot.Proofs.Text.Decimal
/-!
Which texts are processor descriptors, what is wrong with the others, and what a descriptor says. A
text is read in passes: its lines are cut, its records are seated, their processors are told apart. So
the first line that is no pair is reported ahead of every record, and a record without a seat ahead of
a processor that is listed twice.
-/
namespace PlatformSnapshot
namespace Processor

open Text
open Numeral (Spells)

/-- The record has for this key a numeral of an id. -/
def HasId (r : Record) (key : String) (n : UInt32) : Prop :=
  ∃ value, r.get? key = some value ∧ Spells value.toList n

/-- The record seats its processor there. -/
structure Sits (r : Record) (s : Seat) : Prop where
  id : HasId r "processor" s.id
  socket : HasId r "physical id" s.socket
  core : HasId r "core id" s.core

/-- The record has an id for each key of a seat. -/
def Seated (r : Record) : Prop := ∀ key ∈ seatNames, ∃ n, HasId r key n

/-- What is wrong with a record that has no id for the key. -/
inductive Lacks (r : Record) (key : String) : Fault → Prop where
  | missing (h : r.get? key = none) : Lacks r key (.missingKey key)
  | noId (h : r.get? key = some value) (hn : ∀ n, ¬ Spells value.toList n) : Lacks r key (.notAnInteger key value)

/-- What is wrong with a record: the first key of a seat that it has no id for. -/
def FaultOf (r : Record) (f : Fault) : Prop :=
  ∃ before key after, seatNames = before ++ key :: after ∧ (∀ k ∈ before, ∃ n, HasId r k n) ∧ Lacks r key f

/-- The two records are not of one processor. -/
def Differ (q r : Record) : Prop := ∀ id, HasId q "processor" id → ¬ HasId r "processor" id

variable {r : Record} {rs before after : List Record} {s : Seat} {ss : List Seat} {key : String} {n : UInt32}
  {f : Fault} {text : String} {t : Topology} {e : Topology.DescriptorError}

theorem field_eq_ok_iff : field r key = .ok n ↔ HasId r key n := by
  simp only [field, HasId, ← Numeral.word32?_eq_some_iff]
  cases r.get? key with
  | none => simp
  | some value => cases hn : Numeral.word32? value.toList <;> simp [hn]

theorem field_eq_error_iff : field r key = .error f ↔ Lacks r key f := by
  have hnone : ∀ value : String, (∀ n, ¬ Spells value.toList n) ↔ Numeral.word32? value.toList = none := by
    intro value
    simp only [← Numeral.word32?_eq_some_iff, Option.eq_none_iff_forall_ne_some, ne_eq]
  constructor
  · intro h
    unfold field at h
    split at h
    case h_1 hkey =>
      cases h
      exact .missing hkey
    case h_2 value hkey =>
      split at h
      case h_1 hvalue =>
        cases h
        exact .noId hkey ((hnone value).2 hvalue)
      case h_2 => cases h
  · rintro (hkey | ⟨hkey, hvalue⟩)
    · simp only [field, hkey]
    · simp only [field, hkey, (hnone _).1 hvalue]

theorem seat_eq_ok_iff : seat r = .ok s ↔ Sits r s := by
  obtain ⟨id, socket, core⟩ := s
  simp only [seat, bind_eq_ok_iff, field_eq_ok_iff, pure, Except.pure, Except.ok.injEq, Seat.mk.injEq]
  constructor
  · rintro ⟨_, hid, _, hsocket, _, hcore, rfl, rfl, rfl⟩
    exact ⟨hid, hsocket, hcore⟩
  · rintro ⟨hid, hsocket, hcore⟩
    exact ⟨id, hid, socket, hsocket, core, hcore, rfl, rfl, rfl⟩

/-- The fields of a seat are read in the order of their names. -/
theorem seat_eq_error_iff : seat r = .error f ↔ FaultOf r f := by
  have hfields : seat r = .error f ↔ seatNames.mapM (field r) = .error f := by
    simp only [seat, seatNames, List.mapM_cons, List.mapM_nil, bind_eq_error_iff, pure, Except.pure, reduceCtorEq,
      and_false, exists_false, or_false]
  rw [hfields, mapM_eq_error_iff]
  simp only [field_eq_ok_iff, field_eq_error_iff, FaultOf]

theorem seated_iff : Seated r ↔ ∃ s, Sits r s := by
  simp only [Seated, seatNames, List.forall_mem_cons]
  constructor
  · rintro ⟨⟨id, hid⟩, ⟨socket, hsocket⟩, ⟨core, hcore⟩, -⟩
    exact ⟨⟨id, socket, core⟩, hid, hsocket, hcore⟩
  · rintro ⟨s, hs⟩
    exact ⟨⟨_, hs.id⟩, ⟨_, hs.socket⟩, ⟨_, hs.core⟩, by simp⟩

theorem exists_faultOf (h : ¬ Seated r) : ∃ f, FaultOf r f := by
  simp only [← seat_eq_error_iff, exists_error_iff, seat_eq_ok_iff, ← seated_iff]
  exact h

theorem seats_eq_mapM (rs : List Record) : seats rs = rs.mapM seat := by
  induction rs with
  | nil => rfl
  | cons r rs ih => rw [seats, ih, List.mapM_cons]

theorem seats_eq_ok_iff : seats rs = .ok ss ↔ List.Forall₂ Sits rs ss := by
  simp only [seats_eq_mapM, mapM_eq_ok_iff, seat_eq_ok_iff]

theorem seats_eq_error_iff : seats rs = .error f ↔
    ∃ before r after, rs = before ++ r :: after ∧ (∀ q ∈ before, Seated q) ∧ FaultOf r f := by
  simp only [seats_eq_mapM, mapM_eq_error_iff, seat_eq_ok_iff, seat_eq_error_iff, seated_iff]

theorem HasId.unique {n' : UInt32} (h : HasId r key n) (h' : HasId r key n') : n = n' := by
  rw [← field_eq_ok_iff] at h h'
  exact Except.ok.inj (h.symm.trans h')

theorem Sits.unique {s' : Seat} (h : Sits r s) (h' : Sits r s') : s = s' := by
  rw [← seat_eq_ok_iff] at h h'
  exact Except.ok.inj (h.symm.trans h')

theorem differ_iff {s' : Seat} {q : Record} (hq : Sits q s) (hr : Sits r s') : Differ q r ↔ s.id ≠ s'.id := by
  constructor
  · intro h hid
    exact h s.id hq.id (hid ▸ hr.id)
  · intro h id hqid hrid
    exact h ((hq.id.unique hqid).trans (hrid.unique hr.id))

theorem exists_seats (h : ∀ r ∈ rs, Seated r) : ∃ ss, List.Forall₂ Sits rs ss := by
  induction rs with
  | nil => exact ⟨[], .nil⟩
  | cons r rs ih =>
    obtain ⟨hr, hrs⟩ := List.forall_mem_cons.1 h
    obtain ⟨s, hs⟩ := seated_iff.1 hr
    obtain ⟨ss, hss⟩ := ih hrs
    exact ⟨s :: ss, .cons hs hss⟩

/-- A seat is one of the seats of some records if one of these records has it. -/
theorem mem_seats_iff (h : List.Forall₂ Sits rs ss) : s ∈ ss ↔ ∃ r ∈ rs, Sits r s := by
  induction h with
  | nil => simp
  | cons hs _ ih =>
    have hhead : s = _ ↔ Sits _ s := ⟨fun he => he ▸ hs, fun hs' => hs'.unique hs⟩
    rw [List.mem_cons, hhead, ih]
    simp

theorem exists_mem_seats (h : List.Forall₂ Sits rs ss) (hr : r ∈ rs) : ∃ s ∈ ss, Sits r s := by
  induction h with
  | nil => cases hr
  | cons hs _ ih =>
    rcases List.mem_cons.1 hr with rfl | hr
    · exact ⟨_, List.mem_cons_self, hs⟩
    · obtain ⟨s, hmem, hsits⟩ := ih hr
      exact ⟨s, List.mem_cons_of_mem _ hmem, hsits⟩

theorem not_mem_seats_iff (hs : Sits r s) (h : List.Forall₂ Sits rs ss) :
    s.id ∉ ss.map (·.id) ↔ ∀ q ∈ rs, Differ r q := by
  induction h with
  | nil => simp
  | cons hq _ ih => rw [List.map_cons, List.mem_cons, not_or, List.forall_mem_cons, differ_iff hs hq, ih]

/-- The records are of different processors if the ids of their seats differ. -/
theorem nodup_seats_iff (h : List.Forall₂ Sits rs ss) : (ss.map (·.id)).Nodup ↔ rs.Pairwise Differ := by
  induction h with
  | nil => simp
  | cons hs hss ih => rw [List.map_cons, List.nodup_cons, List.pairwise_cons, not_mem_seats_iff hs hss, ih]

/-- Where there is a first seat whose processor has one before, this processor is reported. -/
theorem firstRepeated?_append {seen : List UInt32} {left : List Seat} (hleft : (left.map (·.id)).Nodup)
    (hseen : ∀ s ∈ left, s.id ∉ seen) (hs : s.id ∈ seen ∨ s.id ∈ left.map (·.id)) (right : List Seat) :
    Topology.firstRepeated? seen (left ++ s :: right) = some s.id := by
  induction left generalizing seen with
  | nil => exact if_pos (by simpa using hs)
  | cons a left ih =>
    obtain ⟨ha, hleft⟩ := List.nodup_cons.1 hleft
    obtain ⟨haseen, hseen⟩ := List.forall_mem_cons.1 hseen
    rw [List.cons_append, Topology.firstRepeated?, if_neg haseen]
    refine ih hleft ?_ ?_
    · intro b hb hmem
      rcases List.mem_cons.1 hmem with hba | hmem
      · exact ha (List.mem_map.2 ⟨b, hb, hba⟩)
      · exact hseen b hb hmem
    · rcases hs with hs | hs
      · exact .inl (List.mem_cons_of_mem _ hs)
      · rcases List.mem_cons.1 hs with hsa | hs
        · exact .inl (hsa ▸ List.mem_cons_self)
        · exact .inr hs

theorem exists_records (hc : Paired (lines text.toList)) : ∃ rs, AreRecords text rs := by
  obtain ⟨runs, hruns⟩ := exists_runs (lines text.toList)
  exact ⟨_, (areRecords_iff hc).2 (recordsFrom_of_runs hruns hc 1)⟩

/-- A text without records has blank lines only. -/
theorem areRecords_nil_iff : AreRecords text [] ↔ ∀ l ∈ lines text.toList, isBlankLine l = true := by
  simp only [AreRecords, List.forall₂_nil_right_iff, exists_eq_right]
  constructor
  · intro h
    have hnone : (lines text.toList).filter (fun l => !isBlankLine l) = [] := h.flatten_eq.symm
    simpa using hnone
  · intro h
    have hruns : Runs (lines text.toList ++ []) [] := .blanks_append h .none
    rwa [List.append_nil] at hruns

end Processor

namespace Topology

open Processor Text

/-- A processor descriptor: its lines are pairs or blank, and its records, of which there are some,
seat different processors. -/
def IsDescriptor (text : String) : Prop :=
  Paired (lines text.toList) ∧
    ∃ rs, AreRecords text rs ∧ rs ≠ [] ∧ (∀ r ∈ rs, Seated r) ∧ rs.Pairwise Differ

/-- What is wrong with a text that is no processor descriptor. -/
inductive Refused (text : String) : DescriptorError → Prop where
  | notAPair (hlines : lines text.toList = before ++ line :: after) (hbefore : Paired before)
      (hline : isBlankLine line = false) (hcolon : ':' ∉ line) :
      Refused text (.malformed (.notAPair (before.length + 1) (.ofList line)))
  | badRecord (hc : Paired (lines text.toList)) (hr : AreRecords text (before ++ r :: after))
      (hbefore : ∀ q ∈ before, Seated q) (hf : FaultOf r f) : Refused text (.malformed f)
  | noRecords (h : ∀ l ∈ lines text.toList, isBlankLine l = true) : Refused text (.malformed .noProcessors)
  | repeated {id : UInt32} (hc : Paired (lines text.toList)) (hr : AreRecords text (before ++ r :: after))
      (hs : ∀ q ∈ before ++ r :: after, Seated q) (hbefore : before.Pairwise Differ) (hq : q ∈ before)
      (hqid : HasId q "processor" id) (hrid : HasId r "processor" id) : Refused text (.repeated id)

theorem parse_of_records (hc : Paired (lines text.toList)) (hr : AreRecords text rs) :
    parse text = (do
      let seats ← (seats rs).mapError .malformed
      if seats = [] then .error (.malformed .noProcessors)
      match firstRepeated? [] seats with
      | some id => .error (.repeated id)
      | none => .ok (ofSeats seats (Processor.model text))) := by
  rw [parse, (areRecords_iff hc).1 hr]
  rfl

theorem exists_parse_of_isDescriptor (h : IsDescriptor text) : ∃ t, parse text = .ok t := by
  obtain ⟨hc, rs, hr, hne, hseated, hdiffer⟩ := h
  obtain ⟨ss, hss⟩ := exists_seats hseated
  have hnil : ss ≠ [] := by
    rintro rfl
    cases hss
    exact hne rfl
  exact ⟨_, parse_eq_ok_iff.2 ⟨rs, ss, (areRecords_iff hc).1 hr, seats_eq_ok_iff.2 hss, hnil,
    (nodup_seats_iff hss).2 hdiffer, rfl⟩⟩

theorem parse_of_refused (h : Refused text e) : parse text = .error e := by
  cases h with
  | @notAPair before line after hlines hbefore hline hcolon =>
    rw [parse, records_notAPair hlines hbefore hline hcolon]
    rfl
  | @badRecord before r after f hc hr hbefore hf =>
    have hseats : seats (before ++ r :: after) = .error f := seats_eq_error_iff.2 ⟨_, _, _, rfl, hbefore, hf⟩
    rw [parse_of_records hc hr, hseats]
    rfl
  | noRecords h =>
    have hc : Paired (lines text.toList) := by
      intro l hl hblank
      rw [h l hl] at hblank
      cases hblank
    rw [parse_of_records hc (areRecords_nil_iff.2 h)]
    rfl
  | @repeated before r after q id hc hr hs hbefore hq hqid hrid =>
    obtain ⟨hsbefore, hsafter⟩ := List.forall_mem_append.1 hs
    obtain ⟨left, hleft⟩ := exists_seats hsbefore
    obtain ⟨hsr, hsafter⟩ := List.forall_mem_cons.1 hsafter
    obtain ⟨s, hs⟩ := seated_iff.1 hsr
    obtain ⟨right, hright⟩ := exists_seats hsafter
    obtain rfl : s.id = id := hs.id.unique hrid
    have hseats : seats (before ++ r :: after) = .ok (left ++ s :: right) :=
      seats_eq_ok_iff.2 (List.rel_append hleft (.cons hs hright))
    have hmem : s.id ∈ left.map (·.id) := by
      obtain ⟨a, ha, hsits⟩ := exists_mem_seats hleft hq
      exact List.mem_map.2 ⟨a, ha, hsits.id.unique hqid⟩
    have hfirst : firstRepeated? [] (left ++ s :: right) = some s.id :=
      firstRepeated?_append ((nodup_seats_iff hleft).2 hbefore) (by simp) (.inr hmem) right
    rw [parse_of_records hc hr, hseats]
    simp [Except.mapError, bind, Except.bind, hfirst]

/-- Each text is a descriptor or has one of these faults. -/
theorem isDescriptor_or_refused (text : String) : IsDescriptor text ∨ ∃ e, Refused text e := by
  -- one split for each pass: what is found by the first that fails is the fault
  rcases all_or_first (fun l => isBlankLine l = false → ':' ∈ l) (lines text.toList) with
    hc | ⟨before, line, after, hlines, hbefore, hline⟩
  case inr =>
    rw [Classical.not_imp] at hline
    exact .inr ⟨_, .notAPair hlines hbefore hline.1 hline.2⟩
  obtain ⟨rs, hr⟩ := exists_records hc
  rcases all_or_first Seated rs with hseated | ⟨before, r, after, rfl, hbefore, hnot⟩
  case inr =>
    obtain ⟨f, hf⟩ := exists_faultOf hnot
    exact .inr ⟨_, .badRecord hc hr hbefore hf⟩
  by_cases hnil : rs = []
  · subst hnil
    exact .inr ⟨_, .noRecords (areRecords_nil_iff.1 hr)⟩
  rcases pairwise_or_first Differ rs with hdiffer | ⟨before, r, after, rfl, hbefore, q, hq, hsame⟩
  · exact .inl ⟨hc, rs, hr, hnil, hseated, hdiffer⟩
  · simp only [Differ, not_forall, not_not] at hsame
    obtain ⟨id, hqid, hrid⟩ := hsame
    exact .inr ⟨_, .repeated hc hr hseated hbefore hq hqid hrid⟩

theorem isDescriptor_of_parse (h : parse text = .ok t) : IsDescriptor text := by
  rcases isDescriptor_or_refused text with hd | ⟨e, he⟩
  · exact hd
  · rw [parse_of_refused he] at h
    cases h

theorem refused_of_parse (h : parse text = .error e) : Refused text e := by
  rcases isDescriptor_or_refused text with hd | ⟨d, hd⟩
  · obtain ⟨t, ht⟩ := exists_parse_of_isDescriptor hd
    rw [ht] at h
    cases h
  · rw [parse_of_refused hd] at h
    obtain rfl := Except.error.inj h
    exact hd

/-- A text is accepted if it is a processor descriptor, and otherwise its first fault is reported, in
the order of the passes. -/
theorem parse_verdict (text : String) : ((∃ t, parse text = .ok t) ↔ IsDescriptor text) ∧
    ∀ e, parse text = .error e ↔ Refused text e := by
  constructor
  · constructor
    · rintro ⟨t, h⟩
      exact isDescriptor_of_parse h
    · exact exists_parse_of_isDescriptor
  · intro e
    exact ⟨refused_of_parse, parse_of_refused⟩

-- a line without a colon is reported although the record before it has no seat
example : parse "core id : 1\n\nprocessor 0\n" = .error (.malformed (.notAPair 3 "processor 0")) := by decide +kernel

/-- The processors of some records by their sockets and cores. A core is told by its socket and its id
there, and no socket and no core is listed that has no record. -/
structure Groups (rs : List Record) (t : Topology) : Prop where
  cpus : t.cpus = rs.length
  cores : t.cores = {place : UInt32 × UInt32 |
    ∃ r ∈ rs, HasId r "physical id" place.1 ∧ HasId r "core id" place.2}.ncard
  sockets : t.sockets = {socket | ∃ r ∈ rs, HasId r "physical id" socket}.ncard
  mem_keys : ∀ socket, socket ∈ t.layout.keys ↔ ∃ r ∈ rs, HasId r "physical id" socket
  mem_coreIds : ∀ socket core, (socket, core) ∈ t.layout.coreIds ↔
    ∃ r ∈ rs, HasId r "physical id" socket ∧ HasId r "core id" core
  mem_onCore : ∀ id socket core, id ∈ t.layout.onCore socket core ↔ ∃ r ∈ rs, Sits r ⟨id, socket, core⟩
  ascending : ∀ socket core, (t.layout.onCore socket core).Pairwise (· < ·)
  once : t.layout.processors.Nodup

theorem ncard_eq_length {S : Set α} {as : List α} (hd : as.Nodup) (h : ∀ a, a ∈ as ↔ a ∈ S) :
    S.ncard = as.length := by
  classical
  have hset : S = as.toFinset := by
    ext a
    rw [Finset.mem_coe, List.mem_toFinset, h]
  rw [hset, Set.ncard_coe_finset, List.toFinset_card_of_nodup hd]

theorem groups_ofSeats (hss : List.Forall₂ Sits rs ss) (hd : (ss.map (·.id)).Nodup) (model : String) :
    Groups rs (ofSeats ss model) := by
  have hkeys : ∀ socket, socket ∈ (Layout.ofSeats ss).keys ↔ ∃ r ∈ rs, HasId r "physical id" socket := by
    intro socket
    rw [Layout.mem_keys_ofSeats]
    constructor
    · rintro ⟨s, hs, rfl⟩
      obtain ⟨r, hr, hsits⟩ := (mem_seats_iff hss).1 hs
      exact ⟨r, hr, hsits.socket⟩
    · rintro ⟨r, hr, hsocket⟩
      obtain ⟨s, hs, hsits⟩ := exists_mem_seats hss hr
      exact ⟨s, hs, hsits.socket.unique hsocket⟩
  have hcores : ∀ socket core, (socket, core) ∈ (Layout.ofSeats ss).coreIds ↔
      ∃ r ∈ rs, HasId r "physical id" socket ∧ HasId r "core id" core := by
    intro socket core
    rw [Layout.mem_coreIds_ofSeats]
    constructor
    · rintro ⟨s, hs, hplace⟩
      obtain ⟨rfl, rfl⟩ := Prod.mk.inj hplace
      obtain ⟨r, hr, hsits⟩ := (mem_seats_iff hss).1 hs
      exact ⟨r, hr, hsits.socket, hsits.core⟩
    · rintro ⟨r, hr, hsocket, hcore⟩
      obtain ⟨s, hs, hsits⟩ := exists_mem_seats hss hr
      exact ⟨s, hs, Prod.ext (hsits.socket.unique hsocket) (hsits.core.unique hcore)⟩
  have honce : (Layout.ofSeats ss).processors.Nodup := (Layout.perm_processors_ofSeats ss).nodup_iff.2 hd
  constructor
  case cpus => exact hss.length_eq.symm
  case cores =>
    change (Layout.ofSeats ss).cores.length = _
    rw [← Layout.length_coreIds]
    exact (ncard_eq_length (Layout.nodup_coreIds _) fun place => hcores place.1 place.2).symm
  case sockets =>
    change (Layout.ofSeats ss).size = _
    rw [← SortedMap.length_keys]
    exact (ncard_eq_length (SortedMap.nodup_keys _) hkeys).symm
  case mem_keys => exact hkeys
  case mem_coreIds => exact hcores
  case mem_onCore => exact fun id socket core => (Layout.mem_onCore_ofSeats ss id socket core).trans (mem_seats_iff hss)
  case ascending => exact (Layout.tidy_ofSeats ss).pairwise_onCore honce
  case once => exact honce

/-- An accepted descriptor has one way to be cut into records, and its topology groups their processors. -/
theorem groups_of_parse (h : parse text = .ok t) :
    ∃ rs, (∀ rs', AreRecords text rs' ↔ rs' = rs) ∧ Groups rs t := by
  obtain ⟨hc, -⟩ := isDescriptor_of_parse h
  obtain ⟨rs, ss, hr, hss, -, hd, rfl⟩ := parse_eq_ok_iff.1 h
  refine ⟨rs, fun rs' => ?_, groups_ofSeats (seats_eq_ok_iff.1 hss) hd _⟩
  rw [areRecords_iff hc, hr, Except.ok.injEq, eq_comm]

/-- Three processors on two sockets, whose cores have the same id there. -/
def scattered : String :=
  "processor : 9\nphysical id : 40\ncore id : 7\ncore id : 2\n\nprocessor : 5\nphysical id : 3\ncore id : 2\n \n\n" ++
    "core id : 2\nphysical id : 40\nprocessor : 1\n"

theorem groups_scattered :
    ∃ t, parse scattered = .ok t ∧ ∃ rs, (∀ rs', AreRecords scattered rs' ↔ rs' = rs) ∧ Groups rs t := by
  obtain ⟨t, ht⟩ := exists_ok_of_isOk (x := parse scattered) (by decide +kernel)
  exact ⟨t, ht, groups_of_parse ht⟩

end Topology
end PlatformSnapshot
