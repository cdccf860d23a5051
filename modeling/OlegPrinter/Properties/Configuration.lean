/-
  From the bytes of the configuration file to the URI that is looked up.

  The reading loop, the parser, the lookup and the printer, one after the other. `config_iff`: the server has
  a configuration if and only if the first line of the file, as `fgets` delivers it, begins with a document.
  `lookups_of_file`: then it looks up the text of the first member `IPP`, if there is one. `exit_of_file`:
  otherwise it exits with 1.

  So it reads what `cJSON_PrintUnformatted` writes, if that is not too long (`config_unformatted`), and
  nothing that `cJSON_Print` writes for an object (`config_formatted`).
-/
import OlegPrinter.Properties.ReadConfig
import OlegPrinter.Properties.RoundTrip
import OlegPrinter.Properties.StartUp

namespace OlegPrinter

open CLib ParseBuffer

/-! ## Reading -/

/-- What `cJSON_Parse` returns for the string that was collected. -/
def parseConfig (S : Strtod) (heap : Allocator) (text : List UInt8) : Option CJson :=
  match cJSONParse S heap (some (CStr.ofMemory text)) with
  | .ok r => r.item
  | .error _ => none

/-- A line as a text file has it: no byte that `EOF` or a terminator is taken for. -/
structure PlainLine (text : List UInt8) : Prop where
  ne_nil : text ≠ []
  noNul : (0 : UInt8) ∉ text
  noEof : eofChar ∉ text

/-- Behind such a line the loop is left. -/
theorem readingJSON_firstLine {β : Type} (cJSONParse : List UInt8 → Option β) {file : List UInt8}
    (hline : PlainLine (line 511 file).1) (n : ℕ) (buf : Obj 512) :
    readingJSON cJSONParse (n + 1) buf (some file) = some (cJSONParse (line 511 file).1) := by
  have hne : (readStart file buf).file ≠ [] := by
    intro h
    change file = [] at h
    rw [h] at hline
    exact hline.ne_nil rfl
  obtain ⟨buf', -, hstep⟩ := readStep_line (readStart file buf) hne
  have hcstr : cstr (line 511 file).1 = (line 511 file).1 := cstr_eq_self hline.noNul
  have hends : Ends (line 511 (readStart file buf).file).1 := by
    unfold Ends
    change eofChar ∉ cstr (line 511 file).1
    rw [hcstr]
    exact hline.noEof
  rw [if_pos hends] at hstep
  have hrun : readTurns (n + 1) (readStart file buf) = some (line 511 file).1 := by
    refine (loop_succ_left hstep n).trans ?_
    change some ([] ++ cstr (line 511 file).1) = _
    rw [hcstr, List.nil_append]
  change (readTurns (n + 1) (readStart file buf)).map cJSONParse = _
  rw [hrun]
  rfl

theorem parseConfig_some {S : Strtod} {heap : Allocator} {text : List UInt8} {item : CJson} :
    parseConfig S heap text = some item ↔
      ∃ r, cJSONParse S heap (some (CStr.ofMemory text)) = .ok r ∧ r.item = some item := by
  unfold parseConfig
  cases cJSONParse S heap (some (CStr.ofMemory text)) with
  | error e => simp
  | ok r => simp

section

variable {S : Strtod} {heap : Allocator} {file : List UInt8} {item : CJson} {n : ℕ} {buf : Obj 512}

/-- The configuration is what the first line begins with. -/
theorem config_iff (hgrants : ∀ i, heap.grants i = true) (hline : PlainLine (line 511 file).1)
    (hitem : item.isNumber = false) :
    readingJSON (parseConfig S heap) (n + 1) buf (some file) = some (some item) ↔
      ∃ t w, IsDocument S item t ∧ (line 511 file).1 = t ++ w := by
  rw [readingJSON_firstLine _ hline, Option.some.injEq, parseConfig_some,
    cJSONParse_iff S hgrants _ hitem]
  have hbytes : (CStr.ofMemory (line 511 file).1).bytes = (line 511 file).1 := cstr_eq_self hline.noNul
  rw [hbytes]

/-- Where it begins with no document, there is none. -/
theorem config_none (hline : PlainLine (line 511 file).1)
    (hnone : ∀ item t w, IsDocument S item t → (line 511 file).1 ≠ t ++ w) :
    readingJSON (parseConfig S heap) (n + 1) buf (some file) = some none := by
  rw [readingJSON_firstLine _ hline, Option.some.injEq]
  cases hparse : parseConfig S heap (line 511 file).1 with
  | none => rfl
  | some item =>
    obtain ⟨r, hr, hitem⟩ := parseConfig_some.mp hparse
    obtain ⟨t, w, ht, hvalue⟩ := document_of_cJSONParse hr hitem
    have hbytes : (CStr.ofMemory (line 511 file).1).bytes = (line 511 file).1 := cstr_eq_self hline.noNul
    rw [hbytes] at hvalue
    exact absurd hvalue (hnone item t w ht)

end

/-! ## The member -/

theorem Chain.Shaped.names {P : Int → Double → Prop} {named : Bool} {chain : Chain}
    (h : chain.Shaped P named) : ∀ e ∈ chain.entries, e.1.isSome = named := by
  induction chain using Chain.entries.induct with
  | case1 => exact List.forall_mem_nil _
  | case2 string item next ih =>
    obtain ⟨hstring, -, hnext⟩ := h
    exact List.forall_mem_cons.mpr ⟨hstring, ih hnext⟩

/-- Names are all there or none is, so a NULL name never hides a member. -/
theorem Chain.find_shaped {P : Int → Double → Prop} {named : Bool} {chain : Chain}
    (h : chain.Shaped P named) (name : CStr) :
    chain.find name = (chain.entries.find? fun e => e.1 = some name).map Prod.snd := by
  rcases chain.find_eq name with hfind | hfind
  · have hnames := h.names
    rw [hfind]
    induction chain using Chain.find.induct name with
    | case1 => rfl
    | case2 item next =>
      have hnamed : named = Bool.false := (hnames _ (List.mem_cons_self ..)).symm
      subst hnamed
      have hnone : (Chain.cons none item next).entries.find? (fun e => e.1 = some name) = none := by
        rw [List.find?_eq_none]
        intro e he
        have hname := hnames e he
        cases hstring : e.1 with
        | none => simp
        | some string =>
          rw [hstring] at hname
          cases hname
      rw [hnone]
      rfl
    | case3 string item next heq =>
      rw [Chain.find, if_pos heq] at hfind
      cases hfind
    | case4 string item next hne ih =>
      rw [Chain.find, if_neg hne] at hfind
      have hstring : string ≠ name := fun heq => hne ((strcmp_cstr_iff name string).mpr heq.symm)
      rw [ih h.2.2 hfind fun e he => hnames e (List.mem_cons_of_mem _ he)]
      simp [Chain.entries, hstring]
  · exact hfind

/-- In a tree that was parsed, the search finds the first member of that name. -/
theorem getObjectItem_shaped {P : Int → Double → Prop} {item : CJson} (h : item.Shaped P) (name : CStr) :
    getObjectItem (some item) (some name) = item.member name := by
  cases item with
  | array child => exact Chain.find_shaped h name
  | object child => exact Chain.find_shaped h name
  | _ => rfl

/-! ## Start-up -/

/-- The server has read its configuration from this file. -/
def Configured (S : Strtod) (heap : Allocator) (file : List UInt8) (r : StartResults) : Prop :=
  ∃ n buf, readingJSON (parseConfig S heap) (n + 1) buf (some file) = some r.config

section

variable {S : Strtod} {heap : Allocator} {file : List UInt8} {r : StartResults}

/-- What is looked up is the text of the first member `IPP`, or NULL. -/
theorem lookups_of_file (hgrants : ∀ i, heap.grants i = true) (hline : PlainLine (line 511 file).1)
    {item : CJson} (hitem : item.isNumber = false) {t w : List UInt8} (ht : IsDocument S item t)
    (htext : (line 511 file).1 = t ++ w) (hr : Configured S heap file r) (hooks : Hooks) (n : ℕ) :
    lookups (r.run (startUp hooks n)).trace = [cJSONPrint hooks (item.member ippName)] := by
  obtain ⟨m, buf, hconfig⟩ := hr
  have hread : readingJSON (parseConfig S heap) (m + 1) buf (some file) = some (some item) :=
    (config_iff hgrants hline hitem).mpr ⟨t, w, ht, htext⟩
  have hsome : r.config = some item := Option.some.inj (hconfig.symm.trans hread)
  obtain ⟨bom, w', u, -, -, hu, -⟩ := ht
  rw [lookups_startUp hsome, destURIStr, getObjectItem_shaped (isText_shaped hu).1]

/-- A string is looked up between quotes, escaped. -/
theorem uri_of_file (hgrants : ∀ i, heap.grants i = true) (hline : PlainLine (line 511 file).1)
    {item : CJson} {t w : List UInt8} (ht : IsDocument S item t) (htext : (line 511 file).1 = t ++ w)
    {s : CStr} (hmember : item.member ippName = some (.string (some s)))
    (hsize : outputLength s.bytes + 4 ≤ intMax) (hr : Configured S heap file r) (n : ℕ) :
    lookups (r.run (startUp Hooks.plenty n)).trace =
      [some (quote :: s.bytes.flatMap escape ++ [quote])] := by
  have hitem : item.isNumber = false := by
    cases item with
    | number _ _ => cases hmember
    | _ => rfl
  rw [lookups_of_file hgrants hline hitem ht htext hr, hmember]
  refine congrArg (fun uri => [uri]) ((print_plenty_iff _ _ _).mpr ⟨rfl, ?_⟩)
  rw [List.length_append, List.length_cons, length_flatMap_escape, List.length_singleton]
  omega

/-- A file that names a printer. -/
def printerFile : List UInt8 := ascii "\x7b\"IPP\":\"ipp://p\"\x7d"

theorem render_printer : render false 0 printerConfig = some printerFile := by decide +kernel

theorem printerConfig_document (S : Strtod) : IsDocument S printerConfig printerFile :=
  ⟨[], [], printerFile, Or.inl rfl, Blanks.nil,
    render_isText printerConfig ⟨rfl, rfl, trivial⟩ (by decide) render_printer, rfl⟩

theorem plainLine_printer : PlainLine (line 511 printerFile).1 :=
  ⟨by decide, by decide, by decide⟩

theorem configured_printer : Configured Strtod.one .granting printerFile printerResults :=
  ⟨0, Obj.zero 512, (config_iff (fun _ => rfl) plainLine_printer rfl).mpr
    ⟨printerFile, [], printerConfig_document _, by decide⟩⟩

theorem uri_of_file_printer : lookups (printerResults.run (startUp Hooks.plenty 0)).trace =
    [some (ascii "\"ipp://p\"")] :=
  @uri_of_file Strtod.one .granting printerFile printerResults (fun _ => rfl) plainLine_printer
    printerConfig printerFile [] (printerConfig_document _) (by decide) (CStr.lit "ipp://p") rfl
    (by decide) configured_printer 0

/-- Without a document the server exits, and looks nothing up. -/
theorem exit_of_file (hline : PlainLine (line 511 file).1)
    (hnone : ∀ item t w, IsDocument S item t → (line 511 file).1 ≠ t ++ w)
    (hr : Configured S heap file r) (hooks : Hooks) (n : ℕ) :
    (r.run (startUp hooks n)).outcome = .stopped (.exit 1) ∧
      lookups (r.run (startUp hooks n)).trace = [] := by
  obtain ⟨m, buf, hconfig⟩ := hr
  have hread : readingJSON (parseConfig S heap) (m + 1) buf (some file) = some none :=
    config_none hline hnone
  have hnone : r.config = none := Option.some.inj (hconfig.symm.trans hread)
  obtain ⟨format, args, hrun⟩ := run_startUp_noConfig hooks n hnone
  rw [hrun]
  exact ⟨rfl, rfl⟩

end

/-! ## Files that were printed -/

/-- A line of a file that is not longer and has no line break is the file. -/
theorem line_eq_self {room : Nat} {file : List UInt8} (hlength : file.length ≤ room)
    (hbreak : newline ∉ file) : (line room file).1 = file := by
  induction room, file using line.induct with
  | case1 file => exact (List.length_eq_zero_iff.mp (Nat.le_zero.mp hlength)).symm
  | case2 room => rfl
  | case3 room file => exact absurd (List.mem_cons_self ..) hbreak
  | case4 room b file h ih =>
    rw [line, if_neg h]
    dsimp only
    rw [ih (Nat.le_of_succ_le_succ hlength) fun hmem => hbreak (List.mem_cons_of_mem _ hmem)]

/-- What `cJSON_PrintUnformatted` writes is read back, up to 511 bytes. -/
theorem config_unformatted {S : Strtod} {heap : Allocator} (hgrants : ∀ i, heap.grants i = true)
    {item : CJson} (hitem : item.isNumber = false) (hshaped : item.Shaped (ReadsBack S))
    (hnesting : item.nesting ≤ nestingLimit) {hooks : Hooks} {t : List UInt8}
    (hprint : cJSONPrintUnformatted hooks (some item) = some t) (hlength : t.length ≤ 511)
    (heof : eofChar ∉ t) (n : ℕ) (buf : Obj 512) :
    readingJSON (parseConfig S heap) (n + 1) buf (some t) = some (some item) := by
  have hrender := print_render hprint
  have htext := render_isText item hshaped hnesting hrender
  have hprinted := render_printed item (hshaped.mono fun _ _ => ReadsBack.printable) hrender
  have hbytes : ∀ b ∈ t, 31 < b := by
    intro b hb
    rcases hprinted b hb with h | ⟨hformat, -⟩
    · exact h
    · cases hformat
  have hline : (line 511 t).1 = t :=
    line_eq_self hlength fun h => absurd (hbytes newline h) (by decide)
  have hplain : PlainLine (line 511 t).1 := by
    rw [hline]
    obtain ⟨c, s, hs, -⟩ := htext.starts
    exact ⟨by rw [hs]; exact List.cons_ne_nil _ _, fun h => absurd (hbytes 0 h) (by decide), heof⟩
  rw [config_iff hgrants hplain hitem]
  exact ⟨t, [], ⟨[], [], t, Or.inl rfl, Blanks.nil, htext, rfl⟩, by rw [hline, List.append_nil]⟩

theorem config_unformatted_printer :
    readingJSON (parseConfig Strtod.one .granting) 1 (Obj.zero 512) (some printerFile) =
      some (some printerConfig) := by
  have hshaped : printerConfig.Shaped (ReadsBack Strtod.one) := ⟨rfl, rfl, trivial⟩
  have hprint : cJSONPrintUnformatted Hooks.plenty (some printerConfig) = some printerFile :=
    (print_plenty_iff printerConfig false printerFile).mpr ⟨render_printer, by decide⟩
  exact config_unformatted (fun _ => rfl) rfl hshaped (by decide) hprint (by decide) (by decide) 0
    (Obj.zero 512)

theorem not_scalar_brace {S : Strtod} {item : CJson} {t : List UInt8} (h : Scalar S item t) :
    t ≠ [leftBrace] := by
  rintro ht
  cases h with
  | null => exact absurd ht (by decide)
  | false => exact absurd ht (by decide)
  | true => exact absurd ht (by decide)
  | string h => exact absurd (List.cons.inj ht).1 (by decide)
  | @number n h =>
    have hnumber := Numeral.numberByte_text n leftBrace (by rw [ht]; exact List.mem_cons_self ..)
    exact absurd hnumber (by decide)

theorem not_isText_brace {S : Strtod} {n : ℕ} {item : CJson} : ¬ IsText S n item [leftBrace] := by
  intro h
  cases n with
  | zero => exact not_scalar_brace h rfl
  | succ n =>
    rcases h with h | h
    · exact not_scalar_brace h rfl
    · generalize ht : [leftBrace] = t at h
      cases h with
      | array h => exact absurd (List.cons.inj ht).1 (by decide)
      | object h => simpa using congrArg List.length ht

/-- A brace alone is no document. -/
theorem not_isDocument_brace {S : Strtod} {item : CJson} {t w : List UInt8} (ht : IsDocument S item t) :
    ascii "\x7b\n" ≠ t ++ w := by
  obtain ⟨bom, w', u, hbom, hw', hu, rfl⟩ := ht
  obtain ⟨s, c, rfl, hc⟩ := hu.ends
  intro h
  rcases hbom with rfl | rfl
  · cases w' with
    | nil =>
      cases s with
      | nil =>
        have hbrace : leftBrace = c := (List.cons.inj h).1
        subst hbrace
        exact not_isText_brace hu
      | cons d s =>
        -- the last byte of the text is the line break
        have hmem : c ∈ ascii "\n" := by
          rw [show ascii "\n" = s ++ [c] ++ w from (List.cons.inj h).2]
          simp
        rw [List.mem_singleton.mp hmem] at hc
        cases hc
    | cons d w' =>
      have hblank := hw' d (List.mem_cons_self ..)
      rw [← (List.cons.inj h).1] at hblank
      cases hblank
  · exact absurd (List.cons.inj h).1 (by decide)

/-- What `cJSON_Print` writes for an object is not: its first line is a brace. -/
theorem config_formatted {S : Strtod} {heap : Allocator} {child : Chain} {hooks : Hooks} {t : List UInt8}
    (hprint : cJSONPrint hooks (some (.object child)) = some t) {r : StartResults}
    (hr : Configured S heap t r) (hooks' : Hooks) (n : ℕ) :
    (r.run (startUp hooks' n)).outcome = .stopped (.exit 1) ∧
      lookups (r.run (startUp hooks' n)).trace = [] := by
  have hrender := print_render hprint
  rw [render] at hrender
  obtain ⟨members, -, ht⟩ := Option.bind_eq_some_iff.mp hrender
  have hline : (line 511 t).1 = ascii "\x7b\n" := by
    cases ht
    rfl
  have hplain : PlainLine (line 511 t).1 := by
    rw [hline]
    exact ⟨by decide, by decide, by decide⟩
  refine exit_of_file hplain (fun item u w hu => ?_) hr hooks' n
  rw [hline]
  exact not_isDocument_brace hu

/-- The same printer, in a file that is formatted. -/
def formattedFile : List UInt8 := ascii "\x7b\n\t\"IPP\":\t\"ipp://p\"\n\x7d"

theorem configured_formatted :
    Configured Strtod.one .granting formattedFile ⟨none, none, none, 3, 0, by decide⟩ := by
  refine ⟨0, Obj.zero 512, config_none ⟨by decide, by decide, by decide⟩ fun item u w hu => ?_⟩
  have hline : (line 511 formattedFile).1 = ascii "\x7b\n" := by decide
  rw [hline]
  exact not_isDocument_brace hu

theorem config_formatted_printer :
    ((⟨none, none, none, 3, 0, by decide⟩ : StartResults).run (startUp Hooks.plenty 0)).outcome =
        .stopped (.exit 1) ∧
      lookups ((⟨none, none, none, 3, 0, by decide⟩ : StartResults).run
        (startUp Hooks.plenty 0)).trace = [] :=
  config_formatted ((print_plenty_iff printerConfig true formattedFile).mpr
    ⟨by decide +kernel, by decide⟩) configured_formatted Hooks.plenty 0

end OlegPrinter
