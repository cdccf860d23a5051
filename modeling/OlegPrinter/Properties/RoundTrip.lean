/-
  Printing and parsing.

  `render_isText`: the text of an item is one that denotes it, formatted or not, so parsing what was printed
  gives the item back (`parse_print`). That takes an item of the kind the parser makes
  (`CJson.Shaped`: strings are there, members have names and elements have none, nothing is raw) whose
  numbers are read back as they were printed (`ReadsBack`). Those that have an `int` for their value
  are, if `strtod` is exact on integers (`Strtod.Exact`, `readsBack_int`), so an item that was built with such
  numbers comes back (`parse_print_int`).

  `isText_shaped`: what the parser returns is of that kind. So a text that it accepts can be printed and
  parsed any number of times (`parse_print_parse`).
-/
import OlegPrinter.Lib.Stdio
import OlegPrinter.Properties.ParseComplete
import OlegPrinter.Properties.Rendering

namespace OlegPrinter

open CLib ParseBuffer

/-! ## Items -/

mutual

/-- An item like those of the parser, with `P` of its numbers. -/
def CJson.Shaped (P : Int → Double → Prop) : CJson → Prop
  | .invalid => False
  | .raw _ => False
  | .number valueint d => P valueint d
  | .string s => s.isSome
  | .array child => child.Shaped P false
  | .object child => child.Shaped P true
  | _ => True

def Chain.Shaped (P : Int → Double → Prop) (named : Bool) : Chain → Prop
  | .nil => True
  | .cons string item next => string.isSome = named ∧ item.Shaped P ∧ next.Shaped P named

end

mutual

/-- How many brackets are around one another. -/
def CJson.nesting : CJson → ℕ
  | .array child => child.nesting + 1
  | .object child => child.nesting + 1
  | _ => 0

def Chain.nesting : Chain → ℕ
  | .nil => 0
  | .cons _ item next => max item.nesting next.nesting

end

/-- The number is printed as a numeral that is read as that number. -/
def ReadsBack (S : Strtod) (valueint : Int) (d : Double) : Prop :=
  ∃ n, IsNumber n ∧ n.text = numberText valueint d ∧ S.item n = .number valueint d

theorem ofEntries_entries (chain : Chain) : Chain.ofEntries chain.entries = chain := by
  induction chain using Chain.entries.induct with
  | case1 => rfl
  | case2 string item next ih => rw [Chain.entries, Chain.ofEntries, ih]

/-! ## Strings -/

theorem hexCode_control : ∀ n < 32,
    hexCode [0x30, 0x30, hexDigit (UInt8.ofNat n / 16), hexDigit (UInt8.ofNat n % 16)] = some n := by
  decide

/-- A byte is escaped the way a string has it. -/
theorem escaped_escape (b : UInt8) {t s : List UInt8} (h : Escaped t s) :
    Escaped (escape b ++ t) (b :: s) := by
  have hshort : ∀ {c e : UInt8}, shortEscape c = some e → b = e →
      Escaped (backslash :: c :: t) (b :: s) := by
    rintro c _ hc rfl
    exact .short hc h
  unfold escape
  split_ifs with hplain h1 h2 h3 h4 h5 h6 h7
  · exact .plain hplain.2.1 hplain.2.2 h
  · exact hshort (c := 0x5c) (by decide) h1
  · exact hshort (c := 0x22) (by decide) h2
  · exact hshort (c := 0x62) (by decide) h3
  · exact hshort (c := 0x66) (by decide) h4
  · exact hshort (c := 0x6e) (by decide) h5
  · exact hshort (c := 0x72) (by decide) h6
  · exact hshort (c := 0x74) (by decide) h7
  · -- any other control character, by its code
    have hb : b.toNat < 32 := by
      by_contra hge
      refine hplain ⟨?_, h2, h1⟩
      rw [UInt8.lt_iff_toNat_lt]
      change 31 < b.toNat
      omega
    have hcode := hexCode_control b.toNat hb
    rw [UInt8.ofNat_toNat] at hcode
    obtain ⟨c, hc⟩ := exists_char (n := b.toNat) (by omega) (by omega)
    have hbytes : String.utf8EncodeChar c = [b] := by
      have hencode := encodeUtf8_char c
      rw [hc, encodeUtf8, if_pos (by omega), encodeWith_one (by omega), UInt8.ofNat_toNat] at hencode
      exact (Option.some.inj hencode).symm
    have hbasic := Escaped.basic c rfl (hc.symm ▸ hcode) h
    rw [hbytes] at hbasic
    exact hbasic

theorem escaped_flatMap (s : List UInt8) : Escaped (s.flatMap escape) s := by
  induction s with
  | nil => exact .nil
  | cons b s ih =>
    rw [List.flatMap_cons]
    exact escaped_escape b ih

theorem ofMemory_bytes (s : CStr) : CStr.ofMemory s.bytes = s := CStr.ext (cstr_eq_self s.noNul)

/-- A printed string is a string. -/
theorem scalar_renderString (S : Strtod) (s : CStr) :
    Scalar S (.string (some s)) (renderString (some s)) := by
  have hscalar := Scalar.string (S := S) (escaped_flatMap s.bytes).literal
  rwa [ofMemory_bytes] at hscalar

/-! ## Texts -/

theorem ascii_arrayBrackets : ascii "[" = [leftBracket] ∧ ascii "]" = [rightBracket] := ⟨rfl, rfl⟩

theorem ascii_objectBraces : ascii "\x7b" = [leftBrace] ∧ ascii "\x7d" = [rightBrace] := ⟨rfl, rfl⟩

theorem ascii_punctuation : ascii "," = [commaByte] ∧ ascii ":" = [colon] := ⟨rfl, rfl⟩

theorem blanks_break : Blanks isBlank (ascii "\n") := by
  intro c hc
  rw [List.mem_singleton.mp hc]
  decide

theorem blanks_space : Blanks isBlank (ascii " ") := by
  intro c hc
  rw [List.mem_singleton.mp hc]
  decide

theorem blanks_layout (format : Bool) {w : List UInt8} (hw : Blanks isBlank w) :
    Blanks isBlank (layout format w) := by
  cases format with
  | false => exact Blanks.nil
  | true => exact hw

theorem blanks_tabs (n : ℕ) : Blanks isBlank (List.replicate n tab) := by
  intro c hc
  rw [List.eq_of_mem_replicate hc]
  decide

mutual

/-- The text of an item denotes it. -/
theorem render_isText {S : Strtod} {format : Bool} : ∀ (item : CJson) {n depth : ℕ} {t : List UInt8},
    item.Shaped (ReadsBack S) → item.nesting ≤ n → render format depth item = some t →
      IsText S n item t
  | .invalid, _, _, _, hshaped, _, _ => hshaped.elim
  | .raw _, _, _, _, hshaped, _, _ => hshaped.elim
  | .null, _, _, _, _, _, hrender => by
    cases hrender
    exact .scalar .null
  | .false, _, _, _, _, _, hrender => by
    cases hrender
    exact .scalar .false
  | .true, _, _, _, _, _, hrender => by
    cases hrender
    exact .scalar .true
  | .number valueint d, _, _, _, hshaped, _, hrender => by
    obtain ⟨m, hm, htext, hitem⟩ := hshaped
    rw [render] at hrender
    split_ifs at hrender
    cases hrender
    rw [← htext, ← hitem]
    exact .scalar (.number hm)
  | .string none, _, _, _, hshaped, _, _ => absurd hshaped (by simp [CJson.Shaped])
  | .string (some s), _, _, _, _, _, hrender => by
    cases hrender
    exact .scalar (scalar_renderString S s)
  | .array child, n, depth, t, hshaped, hn, hrender => by
    obtain ⟨k, rfl⟩ : ∃ k, n = k + 1 := Nat.exists_eq_add_of_le' (Nat.le_of_add_left_le hn)
    rw [render] at hrender
    obtain ⟨elements, helements, ht⟩ := Option.bind_eq_some_iff.mp hrender
    cases ht
    have hlisted := renderElements_listed child hshaped (Nat.le_of_succ_le_succ hn) helements
    have harray := Composite.array hlisted
    rw [ofEntries_entries] at harray
    exact Or.inr (by simpa [ascii_arrayBrackets] using harray)
  | .object child, n, depth, t, hshaped, hn, hrender => by
    obtain ⟨k, rfl⟩ : ∃ k, n = k + 1 := Nat.exists_eq_add_of_le' (Nat.le_of_add_left_le hn)
    rw [render] at hrender
    obtain ⟨members, hmembers, ht⟩ := Option.bind_eq_some_iff.mp hrender
    cases ht
    have hlisted := renderMembers_listed child hshaped (Nat.le_of_succ_le_succ hn) hmembers
    have hobject := Composite.object (hlisted.pad (blanks_layout format blanks_break)
      (blanks_layout format (blanks_tabs depth)))
    rw [ofEntries_entries] at hobject
    exact Or.inr (by simpa [ascii_objectBraces] using hobject)

theorem renderElements_listed {S : Strtod} {format : Bool} : ∀ (chain : Chain) {n depth : ℕ}
    {t : List UInt8}, chain.Shaped (ReadsBack S) false → chain.nesting ≤ n →
      renderElements format depth chain = some t →
        Listed isBlank commaByte (IsElement (IsText S n)) chain.entries t
  | .nil, _, _, _, _, _, hrender => by
    cases hrender
    exact Or.inl ⟨rfl, Blanks.nil⟩
  | .cons string item next, n, depth, t, ⟨hstring, hitem, hnext⟩, hn, hrender => by
    rw [renderElements] at hrender
    obtain ⟨element, helement, hrender⟩ := Option.bind_eq_some_iff.mp hrender
    obtain ⟨elements, helements, ht⟩ := Option.bind_eq_some_iff.mp hrender
    have hn' := max_le_iff.mp hn
    have hfirst : IsElement (IsText S n) (string, item) element :=
      ⟨by simpa using hstring, render_isText item hitem hn'.1 helement⟩
    have hrest := renderElements_listed next hnext hn'.2 helements
    cases next with
    | nil =>
      cases helements
      cases ht
      exact Or.inr (by simpa [Chain.isNil, Chain.entries] using Separated.one (Padded.of_core hfirst))
    | cons string' item' next' =>
      cases ht
      rcases hrest with ⟨hnil, -⟩ | hrest
      · cases hnil
      · have hcons := Separated.cons (Padded.of_core hfirst)
          (hrest.blanks_append (blanks_layout format blanks_space))
        exact Or.inr (by simpa [Chain.isNil, Chain.entries, ascii_punctuation] using hcons)

theorem renderMembers_listed {S : Strtod} {format : Bool} : ∀ (chain : Chain) {n depth : ℕ}
    {t : List UInt8}, chain.Shaped (ReadsBack S) true → chain.nesting ≤ n →
      renderMembers format depth chain = some t →
        Listed isBlank commaByte (IsMember (IsText S n)) chain.entries t
  | .nil, _, _, _, _, _, hrender => by
    cases hrender
    exact Or.inl ⟨rfl, Blanks.nil⟩
  | .cons string item next, n, depth, t, ⟨hstring, hitem, hnext⟩, hn, hrender => by
    rw [renderMembers] at hrender
    obtain ⟨value, hvalue, hrender⟩ := Option.bind_eq_some_iff.mp hrender
    obtain ⟨members, hmembers, ht⟩ := Option.bind_eq_some_iff.mp hrender
    have hn' := max_le_iff.mp hn
    obtain ⟨name, rfl⟩ := Option.isSome_iff_exists.mp hstring
    have htab : Blanks isBlank [tab] := blanks_tabs 1
    have hfirst : IsMember (IsText S n) (some name, item)
        (quote :: (name.bytes.flatMap escape ++ [quote]) ++ ([] ++ colon :: (layout format [tab] ++ value))) :=
      ⟨_, name.bytes, [], layout format [tab], value, (escaped_flatMap name.bytes).literal, Blanks.nil,
        blanks_layout format htab, by rw [ofMemory_bytes], render_isText item hitem hn'.1 hvalue, rfl⟩
    have hrest := renderMembers_listed next hnext hn'.2 hmembers
    have hindent := blanks_layout format (blanks_tabs depth)
    cases next with
    | nil =>
      cases hmembers
      cases ht
      have hlast := (Padded.of_core hfirst).pad hindent (blanks_layout format blanks_break)
      refine Or.inr (.one ?_)
      simpa [Chain.isNil, renderString, ascii_punctuation] using hlast
    | cons string' item' next' =>
      cases ht
      rcases hrest with ⟨hnil, -⟩ | hrest
      · cases hnil
      · have hcons := Separated.cons ((Padded.of_core hfirst).pad hindent Blanks.nil)
          (hrest.blanks_append (blanks_layout format blanks_break))
        exact Or.inr (by simpa [Chain.isNil, Chain.entries, renderString, ascii_punctuation] using hcons)

end

/-! ## Bytes -/

/-- What escaping writes can be printed. -/
theorem escape_printable {b c : UInt8} (h : c ∈ escape b) : 31 < c := by
  have hdigit : ∀ n < 16, 31 < hexDigit (UInt8.ofNat n) := by decide
  have hhigh := hdigit (b / 16).toNat (by rw [UInt8.toNat_div]; exact Nat.div_lt_of_lt_mul b.toNat_lt)
  have hlow := hdigit (b % 16).toNat (by rw [UInt8.toNat_mod]; exact Nat.mod_lt _ (by decide))
  rw [UInt8.ofNat_toNat] at hhigh hlow
  revert c
  rw [← List.forall_iff_forall_mem]
  unfold escape
  split_ifs with hplain
  · exact hplain.1
  all_goals first | decide | exact ⟨by decide, by decide, by decide, by decide, hhigh, hlow⟩

/-- The bytes of a text: those that can be printed, and those that lay it out. -/
def Printed (format : Bool) (b : UInt8) : Prop := 31 < b ∨ (format = true ∧ (b = newline ∨ b = tab))

theorem printed_ascii {format : Bool} {w : List UInt8} (hw : w.all fun b => 31 < b) :
    ∀ b ∈ w, Printed format b :=
  fun b hb => Or.inl (of_decide_eq_true (List.all_eq_true.mp hw b hb))

theorem printed_layout (format : Bool) {w : List UInt8}
    (hw : w.all fun b => 31 < b ∨ b = newline ∨ b = tab) : ∀ b ∈ layout format w, Printed format b := by
  intro b hb
  cases format with
  | false => cases hb
  | true => exact (of_decide_eq_true (List.all_eq_true.mp hw b hb)).imp_right fun h => ⟨rfl, h⟩

theorem printed_tabs (format : Bool) (depth : ℕ) :
    ∀ b ∈ layout format (List.replicate depth tab), Printed format b :=
  printed_layout format (List.all_eq_true.mpr fun _ hb =>
    decide_eq_true (Or.inr (Or.inr (List.eq_of_mem_replicate hb))))

theorem printed_renderString (format : Bool) (s : Option CStr) :
    ∀ b ∈ renderString s, Printed format b := by
  cases s with
  | none => exact printed_ascii (by decide)
  | some s =>
    intro c hc
    rw [renderString, List.mem_append, List.mem_cons, List.mem_singleton] at hc
    rcases hc with (rfl | hc) | rfl
    · exact Or.inl (by decide)
    · obtain ⟨b, -, hmem⟩ := List.mem_flatMap.mp hc
      exact Or.inl (escape_printable hmem)
    · exact Or.inl (by decide)

mutual

/-- Nothing else is in a text whose numbers are of printable bytes. -/
theorem render_printed {format : Bool} : ∀ (item : CJson) {depth : ℕ} {t : List UInt8},
    item.Shaped (fun i d => ∀ b ∈ numberText i d, 31 < b) → render format depth item = some t →
      ∀ b ∈ t, Printed format b
  | .invalid, _, _, h, _ => h.elim
  | .raw _, _, _, h, _ => h.elim
  | .null, _, _, _, hrender => by
    cases hrender
    exact printed_ascii (by decide)
  | .false, _, _, _, hrender => by
    cases hrender
    exact printed_ascii (by decide)
  | .true, _, _, _, hrender => by
    cases hrender
    exact printed_ascii (by decide)
  | .number valueint d, _, _, h, hrender => by
    rw [render] at hrender
    split_ifs at hrender
    cases hrender
    exact fun b hb => Or.inl (h b hb)
  | .string s, _, _, _, hrender => by
    cases hrender
    exact printed_renderString format s
  | .array child, depth, t, h, hrender => by
    rw [render] at hrender
    obtain ⟨elements, helements, ht⟩ := Option.bind_eq_some_iff.mp hrender
    cases ht
    simp only [List.forall_mem_append]
    exact ⟨⟨printed_ascii (by decide), renderElements_printed child h helements⟩,
      printed_ascii (by decide)⟩
  | .object child, depth, t, h, hrender => by
    rw [render] at hrender
    obtain ⟨members, hmembers, ht⟩ := Option.bind_eq_some_iff.mp hrender
    cases ht
    simp only [List.forall_mem_append]
    exact ⟨⟨⟨⟨printed_ascii (by decide), printed_layout format (by decide)⟩,
      renderMembers_printed child h hmembers⟩,
      printed_tabs format _⟩,
      printed_ascii (by decide)⟩

theorem renderElements_printed {format : Bool} : ∀ (chain : Chain) {depth : ℕ} {t : List UInt8},
    chain.Shaped (fun i d => ∀ b ∈ numberText i d, 31 < b) Bool.false →
      renderElements format depth chain = some t → ∀ b ∈ t, Printed format b
  | .nil, _, _, _, hrender => by
    cases hrender
    exact List.forall_mem_nil _
  | .cons string item next, depth, t, ⟨_, hitem, hnext⟩, hrender => by
    rw [renderElements] at hrender
    obtain ⟨element, helement, hrender⟩ := Option.bind_eq_some_iff.mp hrender
    obtain ⟨elements, helements, ht⟩ := Option.bind_eq_some_iff.mp hrender
    cases ht
    simp only [List.forall_mem_append]
    refine ⟨⟨render_printed item hitem helement, ?_⟩, renderElements_printed next hnext helements⟩
    split_ifs
    · exact List.forall_mem_nil _
    · rw [List.forall_mem_append]
      exact ⟨printed_ascii (by decide), printed_layout format (by decide)⟩

theorem renderMembers_printed {format : Bool} : ∀ (chain : Chain) {depth : ℕ} {t : List UInt8},
    chain.Shaped (fun i d => ∀ b ∈ numberText i d, 31 < b) Bool.true →
      renderMembers format depth chain = some t → ∀ b ∈ t, Printed format b
  | .nil, _, _, _, hrender => by
    cases hrender
    exact List.forall_mem_nil _
  | .cons string item next, depth, t, ⟨_, hitem, hnext⟩, hrender => by
    rw [renderMembers] at hrender
    obtain ⟨value, hvalue, hrender⟩ := Option.bind_eq_some_iff.mp hrender
    obtain ⟨members, hmembers, ht⟩ := Option.bind_eq_some_iff.mp hrender
    cases ht
    have hcomma : ∀ b ∈ (if next.isNil then [] else ascii ","), Printed format b := by
      split_ifs
      · exact List.forall_mem_nil _
      · exact printed_ascii (by decide)
    simp only [List.forall_mem_append]
    exact ⟨⟨⟨⟨⟨⟨⟨printed_tabs format _,
      printed_renderString format string⟩, printed_ascii (by decide)⟩, printed_layout format (by decide)⟩,
      render_printed item hitem hvalue⟩, hcomma⟩, printed_layout format (by decide)⟩,
      renderMembers_printed next hnext hmembers⟩

end

/-! ## Numbers -/

/-- A 32-bit integer is a double, and is read as that double. -/
def Strtod.Exact (S : Strtod) : Prop :=
  ∀ i : Int, -(intMax : Int) - 1 ≤ i → i ≤ intMax →
    (S.nearest (decide (i < 0)) i.natAbs).nanOrInf = false ∧
      (S.nearest (decide (i < 0)) i.natAbs).equals i = true ∧
        S.truncate (S.nearest (decide (i < 0)) i.natAbs) = i

theorem length_digitsOf {n : Nat} (h : n < 10 ^ 10) : (Numeral.digitsOf n).length ≤ 10 := by
  unfold Numeral.digitsOf
  rw [List.length_map]
  exact Nat.toDigits_length 10 n 10 (by decide) h

theorem isNumber_ofInt {i : Int} (hlow : -(intMax : Int) - 1 ≤ i) (hhigh : i ≤ intMax) :
    IsNumber (Numeral.ofInt i) := by
  have hdigits : (Numeral.digitsOf i.natAbs).length ≤ 10 :=
    length_digitsOf (by unfold intMax at hlow hhigh; omega)
  have htext : (Numeral.ofInt i).text =
      (if i < 0 then [minus] else []) ++ Numeral.digitsOf i.natAbs := by
    simp [Numeral.text, Numeral.ofInt, Numeral.fractionText, Numeral.exponentText]
  unfold IsNumber
  rw [htext]
  constructor
  · rw [List.length_append]
    split_ifs <;> simp only [List.length_singleton, List.length_nil] <;> omega
  · split_ifs
    · exact ⟨minus, _, rfl, Or.inl rfl⟩
    · cases hcons : Numeral.digitsOf i.natAbs with
      | nil => exact absurd hcons (Numeral.digitsOf_ne_nil _)
      | cons c s =>
        refine ⟨c, s, rfl, Or.inr (Numeral.isDigits_digitsOf i.natAbs c ?_)⟩
        rw [hcons]
        exact List.mem_cons_self ..

/-- A number with a 32-bit integer for its value, as `cJSON_CreateNumber` makes it. -/
def IsInt (S : Strtod) (valueint : Int) (d : Double) : Prop :=
  -(intMax : Int) - 1 ≤ valueint ∧ valueint ≤ intMax ∧
    d = S.nearest (decide (valueint < 0)) valueint.natAbs

theorem readsBack_int {S : Strtod} (hS : S.Exact) {i : Int} (hlow : -(intMax : Int) - 1 ≤ i)
    (hhigh : i ≤ intMax) : ReadsBack S i (S.nearest (decide (i < 0)) i.natAbs) := by
  obtain ⟨hfinite, hequals, htruncate⟩ := hS i hlow hhigh
  refine ⟨Numeral.ofInt i, isNumber_ofInt hlow hhigh, ?_, ?_⟩
  · rw [Numeral.text_ofInt, numberText, hfinite, hequals]
    rfl
  · have hsaturate : saturate i = i := by
      unfold saturate
      split_ifs <;> omega
    rw [Strtod.item, Numeral.negative_ofInt, Numeral.value_ofInt, htruncate, hsaturate]

theorem ReadsBack.printable {S : Strtod} {valueint : Int} {d : Double} (h : ReadsBack S valueint d) :
    ∀ b ∈ numberText valueint d, 31 < b := by
  obtain ⟨n, -, htext, -⟩ := h
  rw [← htext]
  intro b hb
  have hnumber := Numeral.numberByte_text n b hb
  by_contra hlow
  have hblank : isBlank b := by
    simp only [isBlank, UInt8.le_iff_toNat_le, UInt8.lt_iff_toNat_lt, UInt8.reduceToNat,
      decide_eq_true_eq] at hlow ⊢
    omega
  rw [numberByte_of_isBlank hblank] at hnumber
  cases hnumber

/-! ## Items that were parsed -/

mutual

theorem CJson.Shaped.mono {P Q : Int → Double → Prop} (himp : ∀ i d, P i d → Q i d) :
    ∀ {item : CJson}, item.Shaped P → item.Shaped Q
  | .invalid, h => h
  | .raw _, h => h
  | .null, _ => trivial
  | .false, _ => trivial
  | .true, _ => trivial
  | .number _ _, h => himp _ _ h
  | .string _, h => h
  | .array _, h => Chain.Shaped.mono himp h
  | .object _, h => Chain.Shaped.mono himp h

theorem Chain.Shaped.mono {P Q : Int → Double → Prop} (himp : ∀ i d, P i d → Q i d) {named : Bool} :
    ∀ {chain : Chain}, chain.Shaped P named → chain.Shaped Q named
  | .nil, _ => trivial
  | .cons _ _ _, ⟨hstring, hitem, hnext⟩ => ⟨hstring, hitem.mono himp, hnext.mono himp⟩

end

mutual

/-- `P` of the numbers in an item. -/
def CJson.Numbers (P : Int → Double → Prop) : CJson → Prop
  | .number valueint d => P valueint d
  | .array child => child.Numbers P
  | .object child => child.Numbers P
  | _ => True

def Chain.Numbers (P : Int → Double → Prop) : Chain → Prop
  | .nil => True
  | .cons _ item next => item.Numbers P ∧ next.Numbers P

end

mutual

theorem CJson.Shaped.numbers {P Q : Int → Double → Prop} : ∀ {item : CJson}, item.Shaped P →
    item.Numbers Q → item.Shaped Q
  | .invalid, h, _ => h
  | .raw _, h, _ => h
  | .null, _, _ => trivial
  | .false, _, _ => trivial
  | .true, _, _ => trivial
  | .number _ _, _, h => h
  | .string _, h, _ => h
  | .array _, h, h' => Chain.Shaped.numbers h h'
  | .object _, h, h' => Chain.Shaped.numbers h h'

theorem Chain.Shaped.numbers {P Q : Int → Double → Prop} {named : Bool} : ∀ {chain : Chain},
    chain.Shaped P named → chain.Numbers Q → chain.Shaped Q named
  | .nil, _, _ => trivial
  | .cons _ _ _, ⟨hstring, hitem, hnext⟩, ⟨hitem', hnext'⟩ =>
    ⟨hstring, hitem.numbers hitem', hnext.numbers hnext'⟩

end

theorem shaped_ofEntries {P : Int → Double → Prop} {named : Bool} {es : List (Option CStr × CJson)}
    (h : ∀ e ∈ es, e.1.isSome = named ∧ e.2.Shaped P) : (Chain.ofEntries es).Shaped P named := by
  induction es with
  | nil => trivial
  | cons e es ih =>
    obtain ⟨hstring, hitem⟩ := h e (List.mem_cons_self ..)
    exact ⟨hstring, hitem, ih fun e he => h e (List.mem_cons_of_mem _ he)⟩

theorem nesting_ofEntries {n : ℕ} {es : List (Option CStr × CJson)} (h : ∀ e ∈ es, e.2.nesting ≤ n) :
    (Chain.ofEntries es).nesting ≤ n := by
  induction es with
  | nil => exact Nat.zero_le n
  | cons e es ih =>
    exact max_le (h e (List.mem_cons_self ..)) (ih fun e he => h e (List.mem_cons_of_mem _ he))

/-- The numbers that `parse_number` makes. -/
def IsParsed (S : Strtod) (valueint : Int) (d : Double) : Prop :=
  ∃ n, IsNumber n ∧ S.item n = .number valueint d

theorem scalar_shaped {S : Strtod} {item : CJson} {t : List UInt8} (h : Scalar S item t) :
    item.Shaped (IsParsed S) ∧ item.nesting = 0 := by
  cases h with
  | null => exact ⟨trivial, rfl⟩
  | false => exact ⟨trivial, rfl⟩
  | true => exact ⟨trivial, rfl⟩
  | string _ => exact ⟨rfl, rfl⟩
  | number h => exact ⟨⟨_, h, rfl⟩, rfl⟩

/-- What a text denotes is shaped as the parser makes it, and no deeper than the text. -/
theorem isText_shaped {S : Strtod} {n : ℕ} {item : CJson} {t : List UInt8} (h : IsText S n item t) :
    item.Shaped (IsParsed S) ∧ item.nesting ≤ n := by
  induction n generalizing item t with
  | zero =>
    obtain ⟨hshaped, hnesting⟩ := scalar_shaped h
    exact ⟨hshaped, hnesting.le⟩
  | succ n ih =>
    rcases h with h | h
    · obtain ⟨hshaped, hnesting⟩ := scalar_shaped h
      exact ⟨hshaped, hnesting.trans_le (Nat.zero_le _)⟩
    · cases h with
      | @array es _ h =>
        have hes : ∀ e ∈ es, e.1.isSome = false ∧ e.2.Shaped (IsParsed S) ∧ e.2.nesting ≤ n := by
          intro e he
          obtain ⟨u, hnone, hu⟩ := h.exists_core e he
          exact ⟨by rw [hnone]; rfl, ih hu⟩
        exact ⟨shaped_ofEntries fun e he => ⟨(hes e he).1, (hes e he).2.1⟩,
          Nat.succ_le_succ (nesting_ofEntries fun e he => (hes e he).2.2)⟩
      | @object es _ h =>
        have hes : ∀ e ∈ es, e.1.isSome = true ∧ e.2.Shaped (IsParsed S) ∧ e.2.nesting ≤ n := by
          intro e he
          obtain ⟨u, name, s, w, w', v, -, -, -, hstring, hv, -⟩ := h.exists_core e he
          exact ⟨by rw [hstring]; rfl, ih hv⟩
        exact ⟨shaped_ofEntries fun e he => ⟨(hes e he).1, (hes e he).2.1⟩,
          Nat.succ_le_succ (nesting_ofEntries fun e he => (hes e he).2.2)⟩

/-! ## Round trips -/

/-- So the text is the string at the pointer that was returned. -/
theorem render_noNul {S : Strtod} {item : CJson} (hshaped : item.Shaped (ReadsBack S)) {format : Bool}
    {depth : ℕ} {t : List UInt8} (hrender : render format depth item = some t) :
    (CStr.ofMemory t).bytes = t := by
  refine cstr_eq_self fun h => ?_
  rcases render_printed item (hshaped.mono fun _ _ => ReadsBack.printable) hrender 0 h with h | ⟨-, h | h⟩
  · exact absurd h (by decide)
  · exact absurd h (by decide)
  · exact absurd h (by decide)

/-- What has been printed is parsed to what it was printed from. -/
theorem parse_print (S : Strtod) {heap : Allocator} (hgrants : ∀ i, heap.grants i = true) {item : CJson}
    (hshaped : item.Shaped (ReadsBack S)) (hnesting : item.nesting ≤ nestingLimit) {hooks : Hooks}
    {format : Bool} {t : List UInt8} (hprint : print (some item) format hooks = some t) :
    ∃ r, cJSONParseWithOpts S heap (some (CStr.ofMemory t)) true = .ok r ∧ r.item = some item := by
  have hrender := print_render hprint
  have htext := render_isText item hshaped hnesting hrender
  refine cJSONParseWithOpts_accepts S hgrants (t := t) (w := []) ⟨[], [], t, Or.inl rfl, Blanks.nil, htext, rfl⟩
    ?_ Blanks.nil
  rw [render_noNul hshaped hrender, List.append_nil]

/-- An item that was built, of strings and 32-bit integers, is what its text is parsed to. -/
theorem parse_print_int (S : Strtod) (hS : S.Exact) {heap : Allocator} (hgrants : ∀ i, heap.grants i = true)
    {item : CJson} (hshaped : item.Shaped (IsInt S)) (hnesting : item.nesting ≤ nestingLimit) {hooks : Hooks}
    {format : Bool} {t : List UInt8} (hprint : print (some item) format hooks = some t) :
    ∃ r, cJSONParseWithOpts S heap (some (CStr.ofMemory t)) true = .ok r ∧ r.item = some item := by
  have hreadsBack : item.Shaped (ReadsBack S) := by
    refine hshaped.mono fun valueint d hint => ?_
    obtain ⟨hlow, hhigh, rfl⟩ := hint
    exact readsBack_int hS hlow hhigh
  exact parse_print S hgrants hreadsBack hnesting hprint

/-- A `strtod` that is exact on integers. -/
noncomputable def Strtod.integral : Strtod where
  nearest negative q :=
    ⟨false, fun i => (i : ℚ) = if negative then -q else q, CStr.lit "0", true, CStr.lit "0"⟩
  truncate d := by
    classical exact if h : ∃ i : Int, d.equals i = true then h.choose else 0

theorem Strtod.integral_equals (i j : Int) :
    (Strtod.integral.nearest (decide (i < 0)) i.natAbs).equals j = true ↔ j = i := by
  have hvalue : (if i < 0 then -((i.natAbs : ℕ) : ℚ) else ((i.natAbs : ℕ) : ℚ)) = (i : ℚ) := by
    by_cases hneg : i < 0
    · rw [if_pos hneg, Nat.cast_natAbs, abs_of_neg hneg]
      simp
    · rw [if_neg hneg, Nat.cast_natAbs, abs_of_nonneg (not_lt.mp hneg)]
  simp only [Strtod.integral, decide_eq_true_eq]
  rw [hvalue, Int.cast_inj]

theorem Strtod.integral_exact : Strtod.integral.Exact := by
  classical
  intro i _ _
  refine ⟨rfl, (integral_equals i i).mpr rfl, ?_⟩
  have hexists : ∃ j : Int, (Strtod.integral.nearest (decide (i < 0)) i.natAbs).equals j = true :=
    ⟨i, (integral_equals i i).mpr rfl⟩
  show (if h : ∃ j : Int, (Strtod.integral.nearest (decide (i < 0)) i.natAbs).equals j = true then h.choose
    else 0) = i
  rw [dif_pos hexists]
  exact (integral_equals i _).mp hexists.choose_spec

/-- `[-7]` -/
noncomputable def sevenArray : CJson :=
  .array (.cons none (.number (-7) (Strtod.integral.nearest Bool.true 7)) .nil)

theorem parse_print_int_seven :
    ∃ r, cJSONParseWithOpts Strtod.integral .granting (some (CStr.ofMemory (ascii "[-7]"))) true = .ok r ∧
      r.item = some sevenArray := by
  have hshaped : sevenArray.Shaped (IsInt Strtod.integral) := ⟨rfl, ⟨by decide, by decide, rfl⟩, trivial⟩
  have hprint : print (some sevenArray) false Hooks.plenty = some (ascii "[-7]") := by decide +kernel
  exact parse_print_int Strtod.integral Strtod.integral_exact (fun _ => rfl) hshaped (by decide) hprint

/-- So a text that was accepted, if its numbers are read back, is printed to texts that are accepted as the
    same item, whichever way it is printed. -/
theorem parse_print_parse (S : Strtod) {heap heap' : Allocator} (hgrants : ∀ i, heap'.grants i = true)
    {value : CStr} {requireNullTerminated : Bool} {r : Parsed} {item : CJson}
    (hparse : cJSONParseWithOpts S heap (some value) requireNullTerminated = .ok r)
    (hitem : r.item = some item) (hnumbers : item.Numbers (ReadsBack S)) {hooks : Hooks} {format : Bool}
    {t : List UInt8} (hprint : print (some item) format hooks = some t) :
    ∃ r', cJSONParseWithOpts S heap' (some (CStr.ofMemory t)) true = .ok r' ∧ r'.item = some item := by
  have haccounts := accounts_of_parse hparse hitem
  unfold Parsed.Accounts at haccounts
  rw [hitem] at haccounts
  obtain ⟨-, -, u, w, rest, ⟨bom, w', v, -, -, hv, -⟩, -⟩ := haccounts
  obtain ⟨hshaped, hnesting⟩ := isText_shaped hv
  exact parse_print S hgrants (hshaped.numbers hnumbers) hnesting hprint

/-- `[1]` -/
def oneArray : CJson :=
  .array (.cons none (.number 1 (Strtod.one.nearest Bool.false 1)) .nil)

theorem readsBack_one : ReadsBack Strtod.one 1 (Strtod.one.nearest Bool.false 1) :=
  ⟨Numeral.ofInt 1, isNumber_ofInt (by decide) (by decide), by decide +kernel, rfl⟩

theorem parse_print_parse_one :
    ∃ r, cJSONParseWithOpts Strtod.one .granting (some (CStr.ofMemory (ascii "[1]"))) true = .ok r ∧
      r.item = some oneArray := by
  have hshaped : oneArray.Shaped (ReadsBack Strtod.one) := ⟨rfl, readsBack_one, trivial⟩
  have hprint : print (some oneArray) false Hooks.plenty = some (ascii "[1]") := by decide +kernel
  have hgrants : ∀ i, Allocator.granting.grants i = true := fun _ => rfl
  obtain ⟨r, hr, hitem⟩ := parse_print Strtod.one hgrants hshaped (by decide) hprint
  exact parse_print_parse Strtod.one hgrants hr hitem ⟨readsBack_one, trivial⟩ hprint

end OlegPrinter
