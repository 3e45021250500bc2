import Callsite.ConfigFile
import Mathlib.Tactic.IntervalCases

/-!
# Reading back settings

Settings are written as two tables of lines `key = value`.  Every line is read as one statement
that adds the key with its value to the table, whatever stands behind the line; so the document
that is read has the two tables, and the settings in them are those that were written.
-/

namespace Callsite.Toml.Reader

/-! ## Numbers -/

section Numbers

variable {n : Nat} {ds rest : List Char}

theorem isDigit_of_mem_toDigits {c : Char} (h : c ∈ Nat.toDigits 10 n) : isDigit c = true := by
  have hdigit := Nat.isDigit_of_mem_toDigits (by decide) (by decide) h
  simpa [isDigit, Char.isDigit, Char.le_def] using hdigit

theorem toDigits_ne_cons {c : Char} (hc : isDigit c = false) (ds : List Char) :
    Nat.toDigits 10 n ≠ c :: ds := by
  intro heq
  simp [isDigit_of_mem_toDigits (heq ▸ List.mem_cons_self : c ∈ Nat.toDigits 10 n)] at hc

theorem toDigits_ne_zero_cons (h : 0 < n) (ds : List Char) : Nat.toDigits 10 n ≠ '0' :: ds := by
  induction n using Nat.strongRecOn generalizing ds with
  | ind n ih =>
    rw [Nat.toDigits_eq_if (by decide)]
    split
    case isTrue hlt => interval_cases n <;> simp [Nat.digitChar]
    case isFalse hle =>
      have hfront := ih (n / 10) (by omega) (by omega)
      cases htop : Nat.toDigits 10 (n / 10) with
      | nil => exact absurd htop Nat.toDigits_ne_nil
      | cons d front =>
        intro heq
        obtain ⟨rfl, -⟩ := List.cons.inj heq
        exact hfront front htop

theorem plainDigits_of_all (hne : ds ≠ []) (h : ∀ c ∈ ds, isDigit c = true) :
    plainDigits isDigit ds = some ds := by
  induction ds with
  | nil => exact absurd rfl hne
  | cons d ds ih =>
    obtain ⟨hd, hds⟩ := List.forall_mem_cons.1 h
    cases ds with
    | nil => simp [plainDigits, hd]
    | cons e ds =>
      have he : e ≠ '_' := by rintro rfl; exact absurd (hds _ List.mem_cons_self) (by decide)
      rw [plainDigits, if_pos hd, ih (by simp) hds]
      · rfl
      · simp
      · simpa using he

theorem ofDigits_toDigits (n : Nat) : ofDigits 10 (Nat.toDigits 10 n) = n := by
  have hdigits : ∀ ds : List Char, (∀ c ∈ ds, isDigit c = true) → ∀ m,
      ds.foldl (fun n d => n * 10 + (hexDigit? d).getD 0) m = Nat.ofDigitChars 10 ds m := by
    intro ds hds
    induction ds with
    | nil => intro m; rfl
    | cons d ds ih =>
      intro m
      obtain ⟨hd, hds⟩ := List.forall_mem_cons.1 hds
      have hvalue : hexDigit? d = some (d.toNat - '0'.toNat) := if_pos (by simpa [isDigit] using hd)
      rw [List.foldl_cons, ih hds, Nat.ofDigitChars_cons, hvalue, Nat.mul_comm]
      rfl
  exact (hdigits _ (fun _ => isDigit_of_mem_toDigits) 0).trans Nat.ofDigitChars_ten_toDigits

theorem integer?_toDigits (h : 0 < n) : integer? (Nat.toDigits 10 n) = some (n : Int) := by
  have hunsigned : unsigned? (Nat.toDigits 10 n) = some n := by
    rw [unsigned?, plainDigits_of_all Nat.toDigits_ne_nil fun _ => isDigit_of_mem_toDigits]
    dsimp only [Option.bind_eq_bind, Option.bind_some]
    split
    case h_1 hzero => exact absurd hzero (toDigits_ne_zero_cons h _)
    case h_2 => rw [ofDigits_toDigits]
  rw [integer?, hunsigned]
  · rfl
  · exact fun ds => toDigits_ne_zero_cons h _
  · exact fun ds => toDigits_ne_zero_cons h _
  · exact fun ds => toDigits_ne_zero_cons h _
  · exact toDigits_ne_cons rfl
  · exact toDigits_ne_cons rfl

/-- Behind the digits of a date or time there would have to be another sign. -/
theorem char_of_digitsWithin (c : Char) {count low high : Nat} {after : List Char}
    (hds : ∀ d ∈ ds, isDigit d = true) (hc : isDigit c = false) (hline : c ≠ '\n')
    (h : digitsWithin count low high (ds ++ '\n' :: rest) = some (n, after)) :
    char c after = none := by
  simp only [digitsWithin, Option.ite_none_right_eq_some] at h
  obtain ⟨⟨hlength, hall, -⟩, h⟩ := h
  obtain ⟨-, rfl⟩ := Prod.mk.inj (Option.some.inj h)
  have hcount : count ≤ ds.length := by
    by_contra hlt
    have hmem : '\n' ∈ (ds ++ '\n' :: rest).take count := by
      obtain ⟨k, hk⟩ : ∃ k, count - ds.length = k + 1 := ⟨count - ds.length - 1, by omega⟩
      simp [List.take_append, hk]
    exact absurd (List.all_eq_true.1 hall _ hmem) (by decide)
  rw [List.drop_append_of_le_length hcount]
  cases hdrop : ds.drop count with
  | nil => simp [char, hline]
  | cons d after =>
    have hd := hds d (List.mem_of_mem_drop (hdrop ▸ List.mem_cons_self))
    have hne : c ≠ d := by rintro rfl; simp [hd] at hc
    simp [char, hne]

theorem moment_digits (hds : ∀ d ∈ ds, isDigit d = true) : moment (ds ++ '\n' :: rest) = none := by
  have hdate : date (ds ++ '\n' :: rest) = none := by
    rw [date]
    cases h : digitsWithin 4 0 9999 (ds ++ '\n' :: rest) with
    | none => rfl
    | some found => simp [char_of_digitsWithin '-' hds rfl (by decide) h]
  have htime : time (ds ++ '\n' :: rest) = none := by
    rw [time]
    cases h : digitsWithin 2 0 23 (ds ++ '\n' :: rest) with
    | none => rfl
    | some found => simp [char_of_digitsWithin ':' hds rfl (by decide) h]
  rw [moment, hdate, htime]

end Numbers

/-! ## Values -/

section Lines

variable {v rest : List Char} {item : Toml} {name : String} {d : Document}

/-- The characters write a value that ends with the line. -/
structure Writes (v : List Char) (item : Toml) : Prop where
  plain : ∀ c ∈ v, isPlain c = true
  reads : plain? v = some item
  noMoment : ∀ rest, moment (v ++ '\n' :: rest) = none

theorem writes_nat {n : Nat} (hpos : 0 < n) (hlt : n < 0x8000000000000000) :
    Writes (toString n).toList (.int n) := by
  rw [Nat.toString_eq_ofList_toDigits, String.toList_ofList]
  refine ⟨fun c hc => ?_, ?_, fun rest =>
    moment_digits fun _ => isDigit_of_mem_toDigits⟩
  · have hdigit := isDigit_of_mem_toDigits hc
    rw [isDigit] at hdigit
    simp [isPlain, isBare, hdigit]
  · rw [plain?, if_neg (toDigits_ne_cons rfl _), if_neg (toDigits_ne_cons rfl _),
      integer?_toDigits hpos]
    exact if_pos ⟨by omega, by omega⟩

theorem writes_bool (b : Bool) : Writes (toString b).toList (.bool b) := by
  cases b <;> exact ⟨List.all_eq_true.1 rfl, rfl, fun rest => rfl⟩

theorem Writes.head (h : Writes v item) {c : Char} {cs : List Char}
    (heq : v ++ '\n' :: rest = c :: cs) : c = '\n' ∨ isPlain c = true := by
  cases v with
  | nil => exact Or.inl (List.cons.inj heq).1.symm
  | cons d v =>
    obtain ⟨rfl, -⟩ := List.cons.inj heq
    exact Or.inr (h.plain d List.mem_cons_self)

theorem value_writes (hv : Writes v item) (fuel levels : Nat) :
    value (fuel + 1) levels (v ++ '\n' :: rest) = some (item, '\n' :: rest) := by
  have hscalar : scalar (v ++ '\n' :: rest) = some (item, '\n' :: rest) := by
    rw [scalar, hv.noMoment, List.takeWhile_append_of_pos hv.plain,
      List.dropWhile_append_of_pos hv.plain]
    simp [isPlain, isBare, hv.reads]
  have hhead : ∀ c, isPlain c = false → c ≠ '\n' → ∀ cs, v ++ '\n' :: rest ≠ c :: cs := by
    intro c hc hline cs heq
    simp [(hv.head heq).resolve_left hline] at hc
  rw [value]
  · exact hscalar
  · exact fun cs h _ => hhead '[' rfl (by decide) cs h
  · exact fun cs _ h _ => hhead '[' rfl (by decide) cs h
  · exact fun cs h _ => hhead _ rfl (by decide) cs h
  · exact fun cs _ h _ => hhead _ rfl (by decide) cs h
  · exact hhead '"' rfl (by decide)
  · exact hhead '\'' rfl (by decide)

/-! ## Lines -/

/-- The line of a key and its value, with what stands behind it. -/
def line (name : String) (v rest : List Char) : List Char :=
  name.toList ++ ' ' :: '=' :: ' ' :: (v ++ '\n' :: rest)

def heading (name : String) (rest : List Char) : List Char :=
  '[' :: (name.toList ++ ']' :: '\n' :: rest)

/-- A key that needs no quotes. -/
def IsKey (name : String) : Prop :=
  name.toList ≠ [] ∧ name.toList.all isBare = true

instance (name : String) : Decidable (IsKey name) :=
  inferInstanceAs (Decidable (_ ∧ _))

theorem IsKey.bare (h : IsKey name) : ∀ c ∈ name.toList, isBare c = true :=
  List.all_eq_true.1 h.2

theorem head_of_isKey (h : IsKey name) {c : Char} {cs : List Char}
    (heq : name.toList ++ rest = c :: cs) : isBare c = true := by
  obtain ⟨d, ds, hname⟩ := List.exists_cons_of_ne_nil h.1
  rw [hname] at heq
  obtain ⟨rfl, -⟩ := List.cons.inj heq
  exact h.bare d (hname ▸ List.mem_cons_self)

theorem skip_of_head {cs : List Char} (h : ∀ c after, cs = c :: after → isBlank c = false) :
    skip cs = cs := by
  cases cs with
  | nil => rfl
  | cons c cs => rw [skip, List.dropWhile_cons_of_neg (by simp [h c cs rfl])]

theorem isBlank_of_isPlain {c : Char} (h : isPlain c = true) : isBlank c = false := by
  cases hblank : isBlank c with
  | false => rfl
  | true =>
    have hcases : c = ' ' ∨ c = '\t' := by simpa [isBlank] using hblank
    rcases hcases with rfl | rfl <;> simp [isPlain, isBare] at h

theorem skip_key (h : IsKey name) : skip (name.toList ++ rest) = name.toList ++ rest :=
  skip_of_head fun _ _ heq => isBlank_of_isPlain (by simp [isPlain, head_of_isKey h heq])

theorem simpleKey_of_isKey (h : IsKey name) {c : Char} (hc : isBare c = false) :
    simpleKey (name.toList ++ c :: rest) = some (name, c :: rest) := by
  have htake : (name.toList ++ c :: rest).takeWhile isBare = name.toList := by
    rw [List.takeWhile_append_of_pos h.bare]
    simp [hc]
  have hdrop : (name.toList ++ c :: rest).dropWhile isBare = c :: rest := by
    rw [List.dropWhile_append_of_pos h.bare]
    simp [hc]
  rw [simpleKey, htake, hdrop]
  · split
    case h_1 hnil => exact absurd hnil h.1
    case h_2 => rw [String.ofList_toList]
  · exact fun cs heq => absurd (head_of_isKey h heq) (by decide)
  · exact fun cs heq => absurd (head_of_isKey h heq) (by decide)

/-- A single key is read up to the sign behind it. -/
theorem key_of_isKey (h : IsKey name) {c e : Char} {after : List Char} (hc : isBare c = false)
    (hskip : skip (c :: rest) = e :: after) (hdot : e ≠ '.') :
    key (name.toList ++ c :: rest) = some ([name], e :: after) := by
  rw [key, show nestingLimit - 1 = 78 + 1 from rfl, dottedKey, skip_key h, simpleKey_of_isKey h hc]
  simp [hskip, hdot]

/-- A line with a key and a value adds an entry. -/
theorem statement_entry (hname : IsKey name) (hv : Writes v item)
    (hnew : d.entries.any (·.1 == name) = false) :
    statement d (line name v rest) =
      some ({ d with entries := d.entries ++ [(name, item)] }, rest) := by
  have hskip : skip (v ++ '\n' :: rest) = v ++ '\n' :: rest := by
    refine skip_of_head fun c after heq => ?_
    rcases hv.head heq with rfl | hplain
    · rfl
    · exact isBlank_of_isPlain hplain
  have hblank : skip (' ' :: (v ++ '\n' :: rest)) = v ++ '\n' :: rest := hskip
  have hkey : key (line name v rest) = some ([name], '=' :: ' ' :: (v ++ '\n' :: rest)) :=
    key_of_isKey hname rfl rfl (by decide)
  have hline : skip (line name v rest) = line name v rest := skip_key hname
  have hlineEnd : ∀ rest, lineEnd ('\n' :: rest) = some rest := fun _ => rfl
  have hentry : entry d (line name v rest) =
      some ({ d with entries := d.entries ++ [(name, item)] }, rest) := by
    rw [entry, hkey]
    simp [hblank, value_writes hv, hlineEnd, put, hnew]
  have hnone : lineEnd (line name v rest) = none := by
    have hhead : ∀ c, isBare c = false → ∀ cs, line name v rest ≠ c :: cs := by
      intro c hc cs heq
      simp [head_of_isKey hname heq] at hc
    rw [lineEnd, hline, skipComment]
    · split
      case h_1 hnil => simp [line] at hnil
      case h_2 => exact newline.eq_3 _ (hhead _ rfl) fun cs => hhead _ rfl _
    · exact hhead _ rfl
  rw [statement, hline]
  split
  case h_1 heq => exact absurd (head_of_isKey hname heq) (by decide)
  case h_2 heq => exact absurd (head_of_isKey hname heq) (by decide)
  case h_3 => rw [hnone, hentry]

/-- A line with a key in brackets closes the table before it and opens a new one. -/
theorem statement_header {root entries : Entries} (hname : IsKey name)
    (hclose : d.close = some root)
    (hopen : openTable [name] root = some entries) :
    statement d (heading name rest) = some (⟨root, .table [name], entries⟩, rest) := by
  have hkey : key (name.toList ++ ']' :: '\n' :: rest) = some ([name], ']' :: '\n' :: rest) :=
    key_of_isKey hname rfl rfl (by decide)
  have hheader : header d (name.toList ++ ']' :: '\n' :: rest) =
      some (⟨root, .table [name], entries⟩, rest) := by
    rw [header, hkey]
    simp [hclose, hopen, show lineEnd ('\n' :: rest) = some rest from rfl]
  have hskip : skip (heading name rest) = heading name rest := rfl
  rw [statement, hskip]
  split
  case h_1 heq => exact absurd (head_of_isKey hname (List.cons.inj heq).2) (by decide)
  case h_2 heq => rw [← (List.cons.inj heq).2, hheader]
  case h_3 hne => exact absurd rfl (hne _)

end Lines

/-! ## Documents -/

/-- A document is read from statements, one after the other. -/
inductive Reads : Document → List Char → Document → Prop
  | done (d : Document) : Reads d [] d
  | next {d d' last : Document} {cs rest : List Char} (h : statement d cs = some (d', rest))
      (hlt : rest.length < cs.length) (hrest : Reads d' rest last) : Reads d cs last

theorem Reads.statements_eq {d last : Document} {cs : List Char} (h : Reads d cs last) {fuel : Nat}
    (hfuel : cs.length ≤ fuel) : statements fuel d cs = some last := by
  induction h generalizing fuel with
  | done d => cases fuel <;> rfl
  | @next d d' last cs rest h hlt _ ih =>
    cases cs with
    | nil => simp at hlt
    | cons c cs =>
      cases fuel with
      | zero => simp at hfuel
      | succ fuel =>
        simp only [List.length_cons] at hlt hfuel
        have hrest : statements fuel d' rest = some last := ih (by omega)
        simp [statements, h, hrest]

variable {d last : Document} {root entries : Entries} {name : String} {v rest : List Char}
  {item : Toml}

theorem Reads.header (name : String) {text : String} (htext : text = "[" ++ name ++ "]\n")
    (hname : IsKey name) (hclose : d.close = some root)
    (hopen : openTable [name] root = some entries)
    (h : Reads ⟨root, .table [name], entries⟩ rest last) : Reads d (text.toList ++ rest) last := by
  have hheading : text.toList ++ rest = heading name rest := by simp [htext, heading]
  rw [hheading]
  exact .next (statement_header hname hclose hopen) (by simp [heading]; omega) h

theorem Reads.entry (name : String) {text : String} (htext : text = name ++ " = ")
    (hname : IsKey name) (hv : Writes v item) (hnew : d.entries.any (·.1 == name) = false)
    (h : Reads { d with entries := d.entries ++ [(name, item)] } rest last) :
    Reads d (text.toList ++ (v ++ ("\n".toList ++ rest))) last := by
  have hline : text.toList ++ (v ++ ("\n".toList ++ rest)) = line name v rest := by
    simp [htext, line]
  rw [hline]
  exact .next (statement_entry hname hv hnew) (by simp [line]; omega) h

theorem Reads.blank (h : Reads d rest last) : Reads d ("\n".toList ++ rest) last :=
  .next rfl (by simp) h

end Callsite.Toml.Reader

namespace Callsite.Config

open Toml Reader

/-- The tables that settings are written as. -/
def entries (c : Config) : Entries :=
  [ ("inference", .table .header
      [ ("max_instantiation_depth", .int c.inference.maxInstantiationDepth),
        ("max_propagation_depth", .int c.inference.maxPropagationDepth),
        ("suggestions", .bool c.inference.suggestions),
        ("observe_argument_hierarchies", .bool c.inference.observeArguments) ]),
    ("diagnostics", .table .header
      [ ("color", .bool c.diagnostics.color), ("show_trace", .bool c.diagnostics.showTrace) ]) ]

theorem read_toToml {c : Config}
    (hinstantiation : 0 < c.inference.maxInstantiationDepth ∧
      c.inference.maxInstantiationDepth < 2 ^ 63)
    (hpropagation : 0 < c.inference.maxPropagationDepth ∧
      c.inference.maxPropagationDepth < 2 ^ 63) :
    Toml.read c.toToml = some c.entries := by
  have hreads : Reads .empty c.toToml.toList ⟨c.entries.take 1, .table ["diagnostics"],
      [("color", .bool c.diagnostics.color), ("show_trace", .bool c.diagnostics.showTrace)]⟩ := by
    rw [← List.append_nil c.toToml.toList]
    -- Rewriting with the definitions would evaluate their texts.
    delta toToml InferenceOptions.toToml DiagnosticOptions.toToml
    simp only [String.toList_append, List.append_assoc]
    refine .header "inference" (by simp) (by decide) rfl rfl ?_
    refine .entry "max_instantiation_depth" (by simp) (by decide)
      (writes_nat hinstantiation.1 hinstantiation.2) rfl ?_
    refine .entry "max_propagation_depth" (by simp) (by decide)
      (writes_nat hpropagation.1 hpropagation.2) rfl ?_
    refine .entry "suggestions" (by simp) (by decide) (writes_bool _) rfl ?_
    refine .entry "observe_argument_hierarchies" (by simp) (by decide) (writes_bool _) rfl ?_
    refine .blank (.header "diagnostics" (by simp) (by decide) rfl rfl ?_)
    refine .entry "color" (by simp) (by decide) (writes_bool _) rfl ?_
    exact .entry "show_trace" (by simp) (by decide) (writes_bool _) rfl (.done _)
  have hmark : skipMark c.toToml.toList = c.toToml.toList := by
    delta toToml InferenceOptions.toToml
    simp only [String.toList_append, List.append_assoc]
    rfl
  rw [Toml.read, hmark, hreads.statements_eq le_rfl]
  rfl

/-- Settings whose limits are positive and fit into 63 bits are read back from what is written. -/
theorem ofToml_toToml (c : Config)
    (hinstantiation : 0 < c.inference.maxInstantiationDepth ∧
      c.inference.maxInstantiationDepth < 2 ^ 63)
    (hpropagation : 0 < c.inference.maxPropagationDepth ∧
      c.inference.maxPropagationDepth < 2 ^ 63) :
    ofToml c.toToml = .ok c := by
  have hentries : ofEntries? c.entries = some c := rfl
  have hvalid : c.problem? = none := by
    rw [problem?, if_neg (by omega), if_neg (by omega)]
  rw [ofToml, read_toToml hinstantiation hpropagation, Option.bind_some, hentries]
  simp [hvalid]

/-- The smallest and the largest limit are read back. -/
theorem ofToml_toToml_extremes :
    let c : Config := ⟨⟨1, 2 ^ 63 - 1, false, true⟩, ⟨false, true⟩⟩
    ofToml c.toToml = .ok c :=
  ofToml_toToml _ (by decide) (by decide)

end Callsite.Config
