import Depsolve.Json.Read
import Depsolve.Proofs.Json.Token

/-!
JSON values read off their pretty form.

* `toDatum` is the data that a value stands for; it comes in two arrangements of the entries,
  as they are written and in the order of their keys.
* `scan` reads on from a state of the reader. `ReadBack` is the invariant: over the characters
  of a value, from a state that waits for one, the reader comes to the state after the value,
  whatever stands around it. `Within.readBack` proves it by induction on the value.
* `read_pretty` and `readDocument_pretty` put a whole text together.
-/

namespace Depsolve.Json

variable {room level : Nat} {j : Json} {items : List Json} {entries : List (String × Json)}
  {state : Awaited} {outer : List Container} {c : Char} {cs rest : List Char}

/-! ### Values as data -/

mutual

/-- The data of a value, with the entries of each object arranged in some way. -/
def toDatum (arrange : List (String × Datum) → List (String × Datum)) : Json → Datum
  | null => .null
  | bool b => .bool b
  | number n => .integer n
  | text s => .text s
  | array items => .sequence true (itemData arrange items)
  | object entries => .mapping (arrange (entryData arrange entries))

/-- The data of some items. -/
def itemData (arrange : List (String × Datum) → List (String × Datum)) : List Json → List Datum
  | [] => []
  | item :: items => toDatum arrange item :: itemData arrange items

/-- The data of some entries. -/
def entryData (arrange : List (String × Datum) → List (String × Datum)) :
    List (String × Json) → List (String × Datum)
  | [] => []
  | (key, value) :: entries => (key, toDatum arrange value) :: entryData arrange entries

end

theorem itemData_eq_map (arrange : List (String × Datum) → List (String × Datum))
    (items : List Json) : itemData arrange items = items.map (toDatum arrange) := by
  induction items with
  | nil => rfl
  | cons item items ih => rw [itemData, ih, List.map_cons]

theorem entryData_eq_map (arrange : List (String × Datum) → List (String × Datum))
    (entries : List (String × Json)) :
    entryData arrange entries = entries.map fun e => (e.1, toDatum arrange e.2) := by
  induction entries with
  | nil => rfl
  | cons e entries ih => rw [entryData, ih, List.map_cons]

/-- The data of a value as it is written. -/
def datum : Json → Datum := toDatum id

/-- The data of a value with the entries of each object in the order of their keys. -/
def document : Json → Datum := toDatum fun es => (SortedMap.ofList es).entries

/-- A value whose containers stand so many levels deep and whose numbers fit words. -/
inductive Within : Nat → Json → Prop where
  | null {room : Nat} : Within room null
  | bool {room : Nat} (b : Bool) : Within room (bool b)
  | number {room : Nat} {n : Int} (h : FitsWord n) : Within room (number n)
  | text {room : Nat} (s : String) : Within room (text s)
  | array {room : Nat} {items : List Json} (h : ∀ item ∈ items, Within room item) :
      Within (room + 1) (array items)
  | object {room : Nat} {entries : List (String × Json)} (h : ∀ e ∈ entries, Within room e.2) :
      Within (room + 1) (object entries)

/-! ### Reading on -/

/-- The state of the reader after some characters. -/
def scan (state : Awaited) (cs : List Char) : Option Awaited :=
  (tokens cs).bind (·.foldlM advance state)

theorem scan_nil (state : Awaited) : scan state [] = some state := by
  rw [scan, tokens]
  rfl

theorem scan_space (h : isSpace c = true) (state : Awaited) (cs : List Char) :
    scan state (c :: cs) = scan state cs := by
  rw [scan, scan, tokens_space h]

theorem scan_newLine (state : Awaited) (level : Nat) (cs : List Char) :
    scan state (newLine level ++ cs) = scan state cs := by
  have hspaces : ∀ n, scan state (List.replicate n ' ' ++ cs) = scan state cs := by
    intro n
    induction n with
    | zero => rfl
    | succ n ih => rw [List.replicate_succ, List.cons_append, scan_space (by decide), ih]
  rw [newLine, List.cons_append, scan_space (by decide), hspaces]

/-- A token takes the reader to the next state. -/
theorem scan_token {t : Token} {next : Awaited} (hspace : isSpace c = false)
    (htoken : readToken (c :: cs) = some (t, rest)) (hadvance : advance state t = some next) :
    scan state (c :: cs) = scan next rest := by
  rw [scan, scan, tokens_token hspace htoken]
  cases tokens rest with
  | none => rfl
  | some ts => simp [hadvance]

/-- The reader waits for a value, possibly the first of an array. -/
def Awaits (state : Awaited) (outer : List Container) : Prop :=
  ∀ t, t ≠ .closeArray → advance state t = beginValue outer t

theorem awaits_value (outer : List Container) : Awaits (.value outer) outer := fun _ _ => rfl

theorem awaits_firstItem (outer : List Container) :
    Awaits (.firstItem outer) (.array [] :: outer) := by
  intro t ht
  cases t <;> first | rfl | exact absurd rfl ht

/-- The reader waits for a key, possibly the first of an object. -/
def AwaitsKey (state : Awaited) (entries : List (Option String × Datum))
    (outer : List Container) : Prop :=
  ∀ key, advance state (.text key) = some (.colon entries key outer)

/-- The reader goes over the pretty form of a value and nothing else. -/
def ReadBack (j : Json) : Prop :=
  ∀ level state outer rest, Awaits state outer → Ends rest →
    scan state (prettyChars level j ++ rest) = scan (complete j.datum outer) rest

theorem ends_newLine (level : Nat) (cs : List Char) : Ends (newLine level ++ cs) := by
  rintro c hc
  cases hc
  exact .inr rfl

theorem ends_comma (cs : List Char) : Ends (',' :: cs) := by
  rintro c hc
  cases hc
  exact .inl rfl

theorem scan_prettyItems {done : List Datum} (h : ∀ item ∈ items, ReadBack item)
    (hne : items ≠ []) (hstate : Awaits state (.array done :: outer)) (hrest : Ends rest) :
    scan state (prettyItems level items ++ rest) =
      scan (.nextItem ((items.map datum).reverse ++ done) outer) rest := by
  induction items generalizing state done with
  | nil => contradiction
  | cons item items ih =>
    have hitem := h item List.mem_cons_self
    cases items with
    | nil =>
      rw [prettyItems, List.append_assoc, scan_newLine, hitem _ _ _ _ hstate hrest]
      rfl
    | cons next items =>
      have hcomma : scan (.nextItem (item.datum :: done) outer)
          (',' :: (prettyItems level (next :: items) ++ rest)) =
          scan (.value (.array (item.datum :: done) :: outer))
            (prettyItems level (next :: items) ++ rest) :=
        scan_token (by decide) rfl rfl
      have hitems := ih (fun i hi => h i (List.mem_cons_of_mem _ hi)) (List.cons_ne_nil _ _)
        (awaits_value (.array (item.datum :: done) :: outer))
      rw [prettyItems, List.append_assoc, List.append_assoc, scan_newLine, List.cons_append,
        hitem _ _ _ _ hstate (ends_comma _), complete, hcomma, hitems]
      · simp
      · exact List.cons_ne_nil _ _

theorem scan_prettyEntries {done : List (Option String × Datum)}
    (h : ∀ e ∈ entries, ReadBack e.2) (hne : entries ≠ [])
    (hstate : AwaitsKey state done outer) (hrest : Ends rest) :
    scan state (prettyEntries level entries ++ rest) =
      scan (.nextKey ((entries.map fun e => (some e.1, e.2.datum)).reverse ++ done) outer) rest := by
  induction entries generalizing state done with
  | nil => contradiction
  | cons e entries ih =>
    obtain ⟨key, value⟩ := e
    have hvalue : ReadBack value := h (key, value) List.mem_cons_self
    have hkey : ∀ cs, Ends cs → scan state (newLine level ++ quoteChars key ++
        ':' :: ' ' :: prettyChars level value ++ cs) =
          scan (.nextKey ((some key, value.datum) :: done) outer) cs := by
      intro cs hcs
      have hquoted : ∀ tail, scan state (quoteChars key ++ tail) =
          scan (.colon done (some key) outer) tail := fun tail =>
        scan_token (by decide) (readToken_quoteChars key tail) (hstate (some key))
      have hcolon : ∀ tail, scan (.colon done (some key) outer) (':' :: tail) =
          scan (.value (.object done (some key) :: outer)) tail := fun tail =>
        scan_token (by decide) rfl rfl
      rw [List.append_assoc, List.append_assoc, scan_newLine, hquoted, List.cons_append,
        List.cons_append, hcolon, scan_space (by decide),
        hvalue _ _ _ _ (awaits_value _) hcs]
      rfl
    cases entries with
    | nil =>
      rw [prettyEntries, hkey rest hrest]
      rfl
    | cons next entries =>
      have hcomma : scan (.nextKey ((some key, value.datum) :: done) outer)
          (',' :: (prettyEntries level (next :: entries) ++ rest)) =
          scan (.key ((some key, value.datum) :: done) outer)
            (prettyEntries level (next :: entries) ++ rest) :=
        scan_token (by decide) rfl rfl
      have hawaits : AwaitsKey (.key ((some key, value.datum) :: done) outer)
          ((some key, value.datum) :: done) outer := fun _ => rfl
      have hentries := ih (fun e he => h e (List.mem_cons_of_mem _ he)) (List.cons_ne_nil _ _)
        hawaits
      rw [prettyEntries, List.append_assoc, List.cons_append, hkey _ (ends_comma _), hcomma,
        hentries]
      · simp
      · exact List.cons_ne_nil _ _

theorem objectDatum_reverse (entries : List (String × Json)) :
    objectDatum (entries.map fun e => (some e.1, e.2.datum)).reverse =
      .mapping (entries.map fun e => (e.1, e.2.datum)) := by
  have hkeys : (entries.map fun e => (some e.1, e.2.datum)).mapM
      (fun e : Option String × Datum => e.1.map (·, e.2)) =
        some (entries.map fun e => (e.1, e.2.datum)) := by
    induction entries with
    | nil => rfl
    | cons e entries ih =>
      rw [List.map_cons, List.mapM_cons, ih]
      rfl
  rw [objectDatum, List.reverse_reverse]
  split
  · rename_i es hes
    exact congrArg Datum.mapping (Option.some.inj (hes.symm.trans hkeys))
  · rename_i hnone
    cases hnone.symm.trans hkeys

theorem exists_integerChars_eq_cons (n : Int) :
    ∃ c cs, integerChars n = c :: cs ∧ isSpace c = false := by
  cases n with
  | ofNat n =>
    obtain ⟨c, cs, hcs, hdigit⟩ := Text.exists_toDigits_eq_cons n
    refine ⟨c, cs, hcs, ?_⟩
    rw [Bool.eq_false_iff]
    intro hspace
    simp only [isSpace, Bool.or_eq_true, beq_iff_eq] at hspace
    rcases hspace with ((rfl | rfl) | rfl) | rfl <;> cases hdigit
  | negSucc n => exact ⟨'-', _, rfl, by decide⟩

theorem readBack_array (h : ∀ item ∈ items, ReadBack item) : ReadBack (array items) := by
  intro level state outer rest hstate hrest
  have hopen : ∀ tail, scan state ('[' :: tail) = scan (.firstItem outer) tail := fun tail =>
    scan_token (by decide) rfl (hstate _ (by simp))
  cases items with
  | nil => exact (hopen (']' :: rest)).trans (scan_token (by decide) rfl rfl)
  | cons item items =>
    have hclose : ∀ done, scan (.nextItem done outer) (newLine level ++ ']' :: rest) =
        scan (complete (arrayDatum done) outer) rest := fun done =>
      (scan_newLine _ level _).trans (scan_token (by decide) rfl rfl)
    simp only [prettyChars, List.cons_append, List.append_assoc, List.nil_append]
    rw [hopen, scan_prettyItems h (List.cons_ne_nil _ _) (awaits_firstItem outer)
      (ends_newLine _ _), hclose, arrayDatum, List.append_nil, List.reverse_reverse, datum,
      toDatum, itemData_eq_map]

theorem readBack_object (h : ∀ e ∈ entries, ReadBack e.2) : ReadBack (object entries) := by
  intro level state outer rest hstate hrest
  have hopen : ∀ tail, scan state ('\x7b' :: tail) = scan (.firstKey outer) tail := fun tail =>
    scan_token (by decide) rfl (hstate _ (by simp))
  cases entries with
  | nil => exact (hopen ('\x7d' :: rest)).trans (scan_token (by decide) rfl rfl)
  | cons e entries =>
    have hclose : ∀ done, scan (.nextKey done outer) (newLine level ++ '\x7d' :: rest) =
        scan (complete (objectDatum done) outer) rest := fun done =>
      (scan_newLine _ level _).trans (scan_token (by decide) rfl rfl)
    simp only [prettyChars, List.cons_append, List.append_assoc, List.nil_append]
    rw [hopen, scan_prettyEntries h (List.cons_ne_nil _ _) (fun _ => rfl) (ends_newLine _ _),
      hclose, List.append_nil, objectDatum_reverse, datum, toDatum, entryData_eq_map]
    rfl

/-- The reader goes over every value whose numbers fit words. -/
theorem Within.readBack (h : Within room j) : ReadBack j := by
  induction h with
  | null =>
    intro level state outer rest hstate _
    exact scan_token (by decide) rfl (hstate _ (by simp))
  | bool b =>
    intro level state outer rest hstate _
    cases b with
    | false => exact scan_token (by decide) rfl (hstate _ (by simp))
    | true => exact scan_token (by decide) rfl (hstate _ (by simp))
  | @number room n hn =>
    intro level state outer rest hstate hrest
    obtain ⟨c, cs, hcs, hspace⟩ := exists_integerChars_eq_cons n
    have htoken := readToken_integerChars hn hrest
    rw [hcs] at htoken
    rw [prettyChars, hcs]
    exact scan_token hspace htoken (hstate _ (by simp))
  | text s =>
    intro level state outer rest hstate _
    exact scan_token (by decide) (readToken_quoteChars s rest) (hstate _ (by simp))
  | array _ ih => exact readBack_array ih
  | object _ ih => exact readBack_object ih

/-! ### Whole texts -/

theorem read_eq_scan (text : String) :
    read text = (scan (.value []) text.toList).bind fun
      | .nothing d => some d
      | _ => none := by
  rw [read, scan, Option.bind_assoc]
  rfl

/-- A value is read off its pretty form. -/
theorem Within.read_pretty (h : Within room j) : read j.pretty = some j.datum := by
  have hscan := h.readBack 0 (.value []) [] [] (awaits_value []) (fun _ hc => by cases hc)
  rw [List.append_nil, scan_nil] at hscan
  rw [read_eq_scan, pretty, String.toList_ofList, hscan]
  rfl

theorem settleItems_datum (h : ∀ item ∈ items, settle room item.datum = some item.document) :
    settleItems room (items.map datum) = some (items.map document) := by
  induction items with
  | nil => rfl
  | cons item items ih =>
    rw [List.map_cons, settleItems, h item List.mem_cons_self,
      ih fun i hi => h i (List.mem_cons_of_mem _ hi)]
    rfl

theorem settleEntries_datum (h : ∀ e ∈ entries, settle room e.2.datum = some e.2.document) :
    settleEntries room (entries.map fun e => (e.1, e.2.datum)) =
      some (entries.map fun e => (e.1, e.2.document)) := by
  induction entries with
  | nil => rfl
  | cons e entries ih =>
    rw [List.map_cons, settleEntries, h e List.mem_cons_self,
      ih fun i hi => h i (List.mem_cons_of_mem _ hi)]
    rfl

/-- A value that is not too deep is a document, with the entries of each object in the order
of their keys. -/
theorem Within.settle_datum (h : Within room j) : settle room j.datum = some j.document := by
  induction h with
  | null => rfl
  | bool b => rfl
  | number => rfl
  | text s => rfl
  | @array room items _ ih =>
    have hitems : settleItems room (items.map (toDatum id)) = some (items.map document) :=
      settleItems_datum ih
    rw [datum, document, toDatum, toDatum, itemData_eq_map, itemData_eq_map, settle,
      if_neg (Nat.succ_ne_zero room), Nat.add_sub_cancel, hitems]
    rfl
  | @object room entries _ ih =>
    have hentries : settleEntries room (entries.map fun e => (e.1, toDatum id e.2)) =
        some (entries.map fun e => (e.1, e.2.document)) := settleEntries_datum ih
    rw [datum, document, toDatum, toDatum, entryData_eq_map, entryData_eq_map, id, settle,
      if_neg (Nat.succ_ne_zero room), Nat.add_sub_cancel, hentries]
    rfl

/-- A document is read off the pretty form of a value. -/
theorem Within.readDocument_pretty (h : Within maxDepth j) :
    readDocument j.pretty = some j.document := by
  rw [readDocument, h.read_pretty]
  exact h.settle_datum

end Depsolve.Json
