import PlatformSnapshot.Proofs.Processor.BusyTime
import PlatformSnapshot.Proofs.Text.Decimal
import PlatformSnapshot.Proofs.Text.Rows
/-!
Which texts give the busy time of the processors, and which time they give. Lines about anything but
one processor are passed over, whatever they say; of the others each must be in order, also one that
a later line about the same processor overrides. So what is wrong with a text is what is wrong with
the first line that is not in order.
-/
namespace PlatformSnapshot.BusyTime

open Text
open Numeral (Spells64 decimal)

/-- The line is about one processor: the digits of its id stand right after `cpu`, its fields after them. -/
def IsRow (line digits : List Char) (fields : List (List Char)) : Prop :=
  ∃ rest, line = "cpu".toList ++ (digits ++ rest) ∧ Numeral.IsRow digits ∧
    (∀ c ∈ rest.head?, isBlank c = true) ∧ WordsOf rest fields

/-- The sum of the busy kinds of time, by their places among the counters of a processor. -/
def busyTotal (counters : List UInt64) : Nat := ([0, 1, 2, 5, 6, 7].map fun i => (counters.getD i 0).toNat).sum

/-- The digits spell this id, and the fields are counters enough whose busy kinds add up to this time. -/
structure Counts (digits : List Char) (fields : List (List Char)) (id : UInt32) (time : UInt64) : Prop where
  id : decimal digits = id.toNat
  time : ∃ ns, List.Forall₂ Spells64 fields ns ∧ 8 ≤ ns.length ∧ busyTotal ns = time.toNat

/-- What is wrong with a line about one processor: its id, else its first field that is no counter,
else the number of its counters, else their sum. -/
inductive FaultOf (digits : List Char) (fields : List (List Char)) : Fault → Prop where
  | badId (h : UInt32.size ≤ decimal digits) : FaultOf digits fields (.badProcessorId (.ofList digits))
  | badCounter {id : UInt32} (hid : decimal digits = id.toNat) (hf : fields = before ++ w :: after)
      (hbefore : ∀ v ∈ before, ∃ n, Spells64 v n) (hw : ∀ n, ¬ Spells64 w n) :
      FaultOf digits fields (.badCounter (.ofList w) id)
  | tooFew {id : UInt32} (hid : decimal digits = id.toNat) (hns : List.Forall₂ Spells64 fields ns)
      (h : ns.length < 8) : FaultOf digits fields (.tooFewCounters id ns.length)
  | overflow {id : UInt32} (hid : decimal digits = id.toNat) (hns : List.Forall₂ Spells64 fields ns)
      (hlen : 8 ≤ ns.length) (h : UInt64.size ≤ busyTotal ns) : FaultOf digits fields (.busyTimeOverflow id)

/-- The line is about this processor. -/
def About (line : List Char) (id : UInt32) : Prop :=
  ∃ digits fields, IsRow line digits fields ∧ decimal digits = id.toNat

/-- The line gives this time for the processor. -/
def Gives (line : List Char) (id : UInt32) (time : UInt64) : Prop :=
  ∃ digits fields, IsRow line digits fields ∧ Counts digits fields id time

/-- If the line is about one processor, it is in order. -/
def Sound (line : List Char) : Prop :=
  ∀ digits fields, IsRow line digits fields → ∃ id time, Counts digits fields id time

/-- What is wrong with the first line that is not in order. -/
def FirstFault (ls : List (List Char)) (f : Fault) : Prop :=
  ∃ before line after, ls = before ++ line :: after ∧ (∀ l ∈ before, Sound l) ∧
    ∃ digits fields, IsRow line digits fields ∧ FaultOf digits fields f

/-- The times that some lines give: those of the last line about each processor, and no others. -/
structure Accounts (ls : List (List Char)) (times : BusyTime) : Prop where
  sound : ∀ l ∈ ls, Sound l
  mem_keys : ∀ id, id ∈ times.keys ↔ ∃ l ∈ ls, About l id
  get?_eq : ∀ id time, times.get? id = some time ↔
    ∃ before line after, ls = before ++ line :: after ∧ Gives line id time ∧ ∀ l ∈ after, ¬ About l id

theorem IsRow.digits {line digits : List Char} {fields : List (List Char)} (h : IsRow line digits fields) :
    Numeral.IsRow digits := by
  obtain ⟨_, _, hdigits, _⟩ := h
  exact hdigits

variable {line digits : List Char} {fields : List (List Char)} {ls : List (List Char)} {ns : List UInt64} {id : UInt32}
  {time : UInt64} {f : Fault} {times : BusyTime}

theorem row?_eq_some_iff : row? line = some (digits, fields) ↔ IsRow line digits fields := by
  have hall : digits.all Numeral.isDigit = true ↔ ∀ c ∈ digits, Numeral.isDigit c := List.all_eq_true
  constructor
  · intro h
    unfold row? at h
    split at h
    case h_1 => cases h
    case h_2 => cases h
    case h_3 c r hafter =>
      split at h
      case isTrue => cases h
      case isFalse hc =>
        split at h
        case h_1 => cases h
        case h_2 w ws hwords =>
          split at h
          case isFalse => cases h
          case isTrue hdigits =>
            cases h
            obtain ⟨_, rest, _, hsplit, hcons, hw, hend, hrest⟩ :=
              (words_eq_iff.1 hwords).exists_append (by simpa using hc)
            cases hcons
            exact ⟨rest, (after?_eq_some_iff.1 hafter).trans (congrArg _ hsplit),
              ⟨hw.1, hall.1 hdigits⟩, hend, hrest⟩
  · rintro ⟨rest, rfl, hdigits, hend, hrest⟩
    have hword : IsWord digits := ⟨hdigits.1, fun c hc => Numeral.isBlank_of_isDigit (hdigits.2 c hc)⟩
    have hwords : words (digits ++ rest) = digits :: fields := by rw [words_append hword hend, words_of_wordsOf hrest]
    obtain ⟨d, ds, hd⟩ := List.exists_cons_of_ne_nil hdigits.1
    have hblank : isBlank d = false := hword.2 d (by simp [hd])
    rw [row?, after?_append]
    rw [hd, List.cons_append] at hwords ⊢
    simp only [hblank, hwords, ← hd, hall.2 hdigits.2, if_true, Bool.false_eq_true, if_false]

theorem word32?_eq_some_iff_of_isRow (h : Numeral.IsRow digits) :
    Numeral.word32? digits = some id ↔ decimal digits = id.toNat := by
  rw [Numeral.word32?_eq_some_iff]
  constructor
  · rintro ⟨ds, rfl | rfl, -, hid⟩
    · exact hid
    · exact absurd List.mem_cons_self (Numeral.plus_not_mem_of_isRow h)
  · exact fun hid => ⟨digits, .inl rfl, h, hid⟩

theorem word32?_eq_none_iff_of_isRow (h : Numeral.IsRow digits) :
    Numeral.word32? digits = none ↔ UInt32.size ≤ decimal digits := by
  simp only [Option.eq_none_iff_forall_ne_some, ne_eq, word32?_eq_some_iff_of_isRow h]
  constructor
  · intro hnone
    by_contra hlt
    exact hnone (.ofNat (decimal digits)) (UInt32.toNat_ofNat_of_lt' (Nat.lt_of_not_le hlt)).symm
  · intro hle id hid
    have hlt : id.toNat < UInt32.size := id.toNat_lt
    omega

def counter (id : UInt32) (w : List Char) : Except Fault UInt64 :=
  match Numeral.word64? w with
  | none => .error (.badCounter (.ofList w) id)
  | some n => .ok n

theorem counter_eq_ok_iff {w : List Char} {n : UInt64} : counter id w = .ok n ↔ Spells64 w n := by
  rw [counter, ← Numeral.word64?_eq_some_iff]
  cases Numeral.word64? w <;> simp

theorem counter_eq_error_iff {w : List Char} :
    counter id w = .error f ↔ (∀ n, ¬ Spells64 w n) ∧ f = .badCounter (.ofList w) id := by
  simp only [counter, ← Numeral.word64?_eq_some_iff]
  cases Numeral.word64? w <;> simp [eq_comm]

theorem counters_eq_mapM (id : UInt32) (ws : List (List Char)) : counters id ws = ws.mapM (counter id) := by
  induction ws with
  | nil => rfl
  | cons w ws ih =>
    rw [counters, ih, List.mapM_cons, counter]
    cases Numeral.word64? w with
    | none => rfl
    | some n => cases ws.mapM (counter id) <;> rfl

theorem counters_eq_ok_iff : counters id fields = .ok ns ↔ List.Forall₂ Spells64 fields ns := by
  simp only [counters_eq_mapM, mapM_eq_ok_iff, counter_eq_ok_iff]

theorem counters_eq_error_iff : counters id fields = .error f ↔ ∃ before w after, fields = before ++ w :: after ∧
    (∀ v ∈ before, ∃ n, Spells64 v n) ∧ (∀ n, ¬ Spells64 w n) ∧ f = .badCounter (.ofList w) id := by
  simp only [counters_eq_mapM, mapM_eq_error_iff, counter_eq_ok_iff, counter_eq_error_iff]

theorem exists_of_eight_le (h : 8 ≤ ns.length) : ∃ user nice system idle wait irq softirq steal more,
    ns = user :: nice :: system :: idle :: wait :: irq :: softirq :: steal :: more := by
  rcases ns with _ | ⟨user, _ | ⟨nice, _ | ⟨system,
    _ | ⟨idle, _ | ⟨wait, _ | ⟨irq, _ | ⟨softirq, _ | ⟨steal, more⟩⟩⟩⟩⟩⟩⟩⟩
  case cons.cons.cons.cons.cons.cons.cons.cons =>
    exact ⟨user, nice, system, idle, wait, irq, softirq, steal, more, rfl⟩
  all_goals simp at h

/-- So adding counters up is one test of their exact sum. -/
theorem foldlM_plus? (ns : List UInt64) : ns.foldlM plus? 0 =
    if (ns.map (·.toNat)).sum < UInt64.size then some (.ofNat (ns.map (·.toNat)).sum) else none := by
  refine Option.ext fun c => ?_
  rw [foldlM_plus?_eq_some_iff, Numeral.ofNat_word64_eq_some_iff, UInt64.toNat_zero, Nat.zero_add]

/-- The busy time is the exact sum of its kinds if that is in range. -/
theorem busy_of_le (h : 8 ≤ ns.length) : busy id ns =
    if busyTotal ns < UInt64.size then .ok (.ofNat (busyTotal ns)) else .error (.busyTimeOverflow id) := by
  obtain ⟨user, nice, system, idle, wait, irq, softirq, steal, more, rfl⟩ := exists_of_eight_le h
  have htotal : ([user, nice, system, irq, softirq, steal].map (·.toNat)).sum =
      busyTotal (user :: nice :: system :: idle :: wait :: irq :: softirq :: steal :: more) := rfl
  rw [busy, foldlM_plus?, htotal]
  generalize busyTotal _ = total
  by_cases hfits : total < UInt64.size
  · rw [if_pos hfits, if_pos hfits]
  · rw [if_neg hfits, if_neg hfits]

theorem busy_of_lt (h : ns.length < 8) : busy id ns = .error (.tooFewCounters id ns.length) := by
  unfold busy
  split
  case h_1 => simp only [List.length_cons] at h; omega
  case h_2 => rfl

theorem busy_eq_ok_iff : busy id ns = .ok time ↔ 8 ≤ ns.length ∧ busyTotal ns = time.toNat := by
  rcases Nat.lt_or_ge ns.length 8 with hlt | hle
  · rw [busy_of_lt hlt]
    simp [Nat.not_le.2 hlt]
  · have hword := Numeral.ofNat_word64_eq_some_iff (n := busyTotal ns) (a := time)
    rw [busy_of_le hle, ← hword]
    split <;> simp [hle]

theorem busy_eq_error_iff : busy id ns = .error f ↔ ns.length < 8 ∧ f = .tooFewCounters id ns.length ∨
    8 ≤ ns.length ∧ UInt64.size ≤ busyTotal ns ∧ f = .busyTimeOverflow id := by
  rcases Nat.lt_or_ge ns.length 8 with hlt | hle
  · rw [busy_of_lt hlt]
    simp [hlt, Nat.not_le.2 hlt, eq_comm]
  · rw [busy_of_le hle]
    split
    case isTrue h => simp [Nat.not_lt.2 hle, Nat.not_le.2 h]
    case isFalse h => simp [Nat.not_lt.2 hle, hle, Nat.le_of_not_lt h, eq_comm]

theorem entry_of_id (h : Numeral.IsRow digits) (hid : decimal digits = id.toNat) :
    entry digits fields = (do return (id, ← busy id (← counters id fields))) := by
  rw [entry, (word32?_eq_some_iff_of_isRow h).2 hid]

theorem entry_of_badId (h : Numeral.IsRow digits) (hbad : UInt32.size ≤ decimal digits) :
    entry digits fields = .error (.badProcessorId (.ofList digits)) := by
  rw [entry, (word32?_eq_none_iff_of_isRow h).2 hbad]

/-- Digits spell an id, or a number that is none. -/
theorem exists_id_or (digits : List Char) :
    (∃ id : UInt32, decimal digits = id.toNat) ∨ UInt32.size ≤ decimal digits := by
  rcases Nat.lt_or_ge (decimal digits) UInt32.size with hlt | hge
  · exact .inl ⟨.ofNat (decimal digits), (UInt32.toNat_ofNat_of_lt' hlt).symm⟩
  · exact .inr hge

theorem entry_eq_ok_iff (h : Numeral.IsRow digits) :
    entry digits fields = .ok (id, time) ↔ Counts digits fields id time := by
  constructor
  · intro hentry
    rcases exists_id_or digits with ⟨i, hi⟩ | hbad
    · simp only [entry_of_id h hi, bind_eq_ok_iff, pure, Except.pure, Except.ok.injEq, Prod.mk.injEq] at hentry
      obtain ⟨ns, hns, t, ht, rfl, rfl⟩ := hentry
      exact ⟨hi, ns, counters_eq_ok_iff.1 hns, busy_eq_ok_iff.1 ht⟩
    · rw [entry_of_badId h hbad] at hentry
      cases hentry
  · rintro ⟨hid, ns, hns, htime⟩
    rw [entry_of_id h hid]
    exact bind_eq_ok_iff.2 ⟨ns, counters_eq_ok_iff.2 hns, bind_eq_ok_iff.2 ⟨time, busy_eq_ok_iff.2 htime, rfl⟩⟩

theorem entry_eq_error_iff (h : Numeral.IsRow digits) : entry digits fields = .error f ↔ FaultOf digits fields f := by
  have herror : ∀ {id : UInt32}, decimal digits = id.toNat → (entry digits fields = .error f ↔
      counters id fields = .error f ∨ ∃ ns, counters id fields = .ok ns ∧ busy id ns = .error f) := by
    intro id hid
    simp only [entry_of_id h hid, bind_eq_error_iff, pure, Except.pure, reduceCtorEq, and_false, exists_false, or_false]
  constructor
  · intro hentry
    rcases exists_id_or digits with ⟨id, hid⟩ | hbad
    · rw [herror hid] at hentry
      simp only [counters_eq_error_iff, counters_eq_ok_iff, busy_eq_error_iff] at hentry
      rcases hentry with ⟨before, w, after, hf, hbefore, hw, rfl⟩ |
        ⟨ns, hns, ⟨hlt, rfl⟩ | ⟨hle, hover, rfl⟩⟩
      · exact .badCounter hid hf hbefore hw
      · exact .tooFew hid hns hlt
      · exact .overflow hid hns hle hover
    · rw [entry_of_badId h hbad] at hentry
      cases hentry
      exact .badId hbad
  · rintro (hbad | ⟨hid, hf, hbefore, hw⟩ | ⟨hid, hns, hlt⟩ | ⟨hid, hns, hle, hover⟩)
    · exact entry_of_badId h hbad
    · exact (herror hid).2 (.inl (counters_eq_error_iff.2 ⟨_, _, _, hf, hbefore, hw, rfl⟩))
    · exact (herror hid).2 (.inr ⟨_, counters_eq_ok_iff.2 hns, busy_eq_error_iff.2 (.inl ⟨hlt, rfl⟩)⟩)
    · exact (herror hid).2 (.inr ⟨_, counters_eq_ok_iff.2 hns, busy_eq_error_iff.2 (.inr ⟨hle, hover, rfl⟩)⟩)

/-- The entry of a row. -/
def ofRow (row : List Char × List (List Char)) : Except Fault (UInt32 × UInt64) := entry row.1 row.2

theorem entriesOf_eq_readRows (ls : List (List Char)) : entriesOf ls = readRows row? ofRow ls := by
  induction ls with
  | nil => rfl
  | cons line ls ih =>
    rw [entriesOf]
    cases hrow : row? line with
    | none =>
      rw [readRows_cons_none hrow]
      exact ih
    | some row =>
      rw [readRows_cons_some hrow, ← ih]
      rfl

theorem forall_ofRow_iff : (∀ row, row? line = some row → ∃ e, ofRow row = .ok e) ↔ Sound line := by
  constructor
  · intro h digits fields hrow
    obtain ⟨⟨id, time⟩, he⟩ := h (digits, fields) (row?_eq_some_iff.2 hrow)
    exact ⟨id, time, (entry_eq_ok_iff hrow.digits).1 he⟩
  · rintro h ⟨digits, fields⟩ hrow
    have hrow := row?_eq_some_iff.1 hrow
    obtain ⟨id, time, hcounts⟩ := h digits fields hrow
    exact ⟨(id, time), (entry_eq_ok_iff hrow.digits).2 hcounts⟩

theorem exists_ofRow_iff : (∃ row, row? line = some row ∧ ofRow row = .error f) ↔
    ∃ digits fields, IsRow line digits fields ∧ FaultOf digits fields f := by
  simp only [Prod.exists, row?_eq_some_iff]
  exact exists₂_congr fun digits fields => and_congr_right fun hrow => entry_eq_error_iff hrow.digits

theorem readRow?_ofRow_eq_some_iff : readRow? row? ofRow line = some (id, time) ↔ Gives line id time := by
  simp only [readRow?_eq_some_iff, Prod.exists, row?_eq_some_iff, Gives]
  exact exists₂_congr fun digits fields => and_congr_right fun hrow => entry_eq_ok_iff hrow.digits

/-- A line in order is about a processor if it gives a time for it. -/
theorem Sound.about_iff (h : Sound line) : About line id ↔ ∃ time, Gives line id time := by
  constructor
  · rintro ⟨digits, fields, hrow, hid⟩
    obtain ⟨i, time, hcounts⟩ := h digits fields hrow
    obtain rfl : i = id := UInt32.toNat_inj.1 (hcounts.id.symm.trans hid)
    exact ⟨time, digits, fields, hrow, hcounts⟩
  · rintro ⟨time, digits, fields, hrow, hcounts⟩
    exact ⟨digits, fields, hrow, hcounts.id⟩

theorem entriesOf_eq_ok_iff {es : List (UInt32 × UInt64)} :
    entriesOf ls = .ok es ↔ (∀ l ∈ ls, Sound l) ∧ ls.filterMap (readRow? row? ofRow) = es := by
  simp only [entriesOf_eq_readRows, readRows_eq_ok_iff, forall_ofRow_iff]

theorem entriesOf_eq_error_iff : entriesOf ls = .error f ↔ FirstFault ls f := by
  have hsound : ∀ l, Sound l ↔ ∀ g, ¬ ∃ digits fields, IsRow l digits fields ∧ FaultOf digits fields g := by
    intro l
    simp only [← forall_ofRow_iff, ← exists_ofRow_iff, forall_row_iff_forall_not]
  simp only [entriesOf_eq_readRows, readRows_eq_error_iff, FirstFailure, exists_ofRow_iff, FirstFault, hsound]

theorem accounts_filterMap (h : ∀ l ∈ ls, Sound l) :
    Accounts ls (.ofList (ls.filterMap (readRow? row? ofRow))) where
  sound := h
  mem_keys := by
    intro id
    simp only [SortedMap.mem_keys_ofList, List.mem_map, List.mem_filterMap, Prod.exists, exists_and_right,
      exists_eq_right, readRow?_ofRow_eq_some_iff]
    constructor
    · rintro ⟨time, l, hl, hgives⟩
      exact ⟨l, hl, (h l hl).about_iff.2 ⟨time, hgives⟩⟩
    · rintro ⟨l, hl, habout⟩
      obtain ⟨time, hgives⟩ := (h l hl).about_iff.1 habout
      exact ⟨time, l, hl, hgives⟩
  get?_eq := by
    intro id time
    have habout : ∀ l ∈ ls, About l id ↔ ∃ time, readRow? row? ofRow l = some (id, time) := by
      intro l hl
      simp only [(h l hl).about_iff, readRow?_ofRow_eq_some_iff]
    simp only [SortedMap.get?_ofList_filterMap, SortedMap.lastBinds_iff habout, readRow?_ofRow_eq_some_iff]

theorem Accounts.unique {times' : BusyTime} (h : Accounts ls times) (h' : Accounts ls times') : times = times' := by
  refine SortedMap.ext_get? fun id => Option.ext fun time => ?_
  rw [h.get?_eq, h'.get?_eq]

/-- A text is accepted if each of its lines about one processor is in order, and then gives for each
processor the time that the last line about it gives. Otherwise its first fault is reported. -/
theorem accounts_or_firstFault (text : String) :
    ((∃ times, parse text = .ok times) ↔ ∀ l ∈ lines text.toList, Sound l) ∧
    (∀ times, parse text = .ok times ↔ Accounts (lines text.toList) times) ∧
    ∀ f, parse text = .error f ↔ FirstFault (lines text.toList) f := by
  have hok : ∀ times, parse text = .ok times ↔
      (∀ l ∈ lines text.toList, Sound l) ∧
        .ofList ((lines text.toList).filterMap (readRow? row? ofRow)) = times := by
    intro times
    simp only [parse, map_eq_ok_iff, entriesOf_eq_ok_iff, and_assoc, exists_and_left, exists_eq_left']
  refine ⟨?_, ?_, ?_⟩
  · simp only [hok, exists_and_left, exists_eq', and_true]
  · intro times
    rw [hok]
    constructor
    · rintro ⟨hsound, rfl⟩
      exact accounts_filterMap hsound
    · intro h
      exact ⟨h.sound, (accounts_filterMap h.sound).unique h⟩
  · intro f
    rw [parse, map_eq_error_iff, entriesOf_eq_error_iff]

-- a bad counter is reported ahead of the missing ones, although idle time would not be summed
example : parse "cpu x\ncpu0x\ncpu00 1 2 3 x 5 6 7\n" = .error (.badCounter "x" 0) := by decide +kernel

-- one processor, of whose lines the later counts
example : parse "cpu0 9 9 9 9 9 9 9 9\ncpu00 1 2 4 1000 1000 8 16 +32\r" = .ok (.ofList [(0, 63)]) := by decide +kernel

end PlatformSnapshot.BusyTime
