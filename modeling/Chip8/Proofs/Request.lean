import Chip8.CommandLine.Parse
import Chip8.Proofs.Numeral
import Mathlib.Data.List.Induction
import Mathlib.Data.List.Perm.Basic

/-!
# Requests

A request names a program and gives values to some of the settings. It is written as one argument
for each of its parts: the name of the file as it is, a setting as its long name, an equals sign and
its value, and a switch as its long name. The arguments can stand in any order, and of several
values for one setting the last one counts.

* `Setting.Value`, `Setting.render`, `Setting.Accepts`: the values of a setting, their texts, and
  which of them are allowed.
* `Options.get`, `Options.put`: the options by their settings.
* `Entry`, `Entry.text`: one part of a request and its argument.
* `Request`, `Request.entries`, `Request.settings`: requests, their parts, and what they come to.
* `Draft.consume_entries`: what is read from arguments, one entry after the other.
* `parse_requests`: a request is read back from its arguments in any order, and the last value of a
  setting counts.
-/

namespace Chip8.CommandLine

/-! ## Values -/

namespace Setting

/-- What a setting is set to. -/
abbrev Value : Setting → Type
  | .clockSpeed | .scale => Int
  | .renderer | .keymap | .palette | .logLevel => String

/-- The text of a value. -/
def render : (s : Setting) → s.Value → String
  | .clockSpeed, n => toString n
  | .renderer, name => name
  | .scale, n => toString n
  | .keymap, text => text
  | .palette, text => text
  | .logLevel, name => name

/-- The values that a setting can have: integers that are not too long, one of the choices, or any
text but the one that stands for a blank. -/
def Accepts : (s : Setting) → s.Value → Prop
  | .clockSpeed, n => (Nat.toDigits 10 n.natAbs).length ≤ 4300
  | .renderer, name => name ∈ renderers
  | .scale, n => (Nat.toDigits 10 n.natAbs).length ≤ 4300
  | .keymap, text => text ≠ blankText
  | .palette, text => text ≠ blankText
  | .logLevel, name => name ∈ logLevels

end Setting

namespace Options

/-- What is given for a setting. -/
def get (o : Options) : (s : Setting) → Given s.Value
  | .clockSpeed => o.clockSpeed
  | .renderer => o.renderer
  | .scale => o.scale
  | .keymap => o.keymap
  | .palette => o.palette
  | .logLevel => o.logLevel

/-- Gives a setting a value. -/
def put (o : Options) : (s : Setting) → s.Value → Options
  | .clockSpeed, n => { o with clockSpeed := .value n }
  | .renderer, name => { o with renderer := .value name }
  | .scale, n => { o with scale := .value n }
  | .keymap, text => { o with keymap := .value text }
  | .palette, text => { o with palette := .value text }
  | .logLevel, name => { o with logLevel := .value name }

theorem get_put_self (o : Options) (s : Setting) (v : s.Value) : (o.put s v).get s = .value v := by
  cases s <;> rfl

theorem get_put_of_ne (o : Options) {s t : Setting} (h : s ≠ t) (v : s.Value) :
    (o.put s v).get t = o.get t := by
  cases s <;> cases t <;> first | rfl | exact absurd rfl h

@[simp] theorem debug_put (o : Options) (s : Setting) (v : s.Value) :
    (o.put s v).debug = o.debug := by
  cases s <;> rfl

/-- Options are told by what is given for each setting, and by whether tracing is on. -/
theorem eq_of_get {o o' : Options} (hget : ∀ s, o.get s = o'.get s) (hdebug : o.debug = o'.debug) :
    o = o' := by
  obtain ⟨_, _, _, _, _, _, _⟩ := o
  obtain ⟨_, _, _, _, _, _, _⟩ := o'
  cases hget .clockSpeed
  cases hget .renderer
  cases hget .scale
  cases hget .keymap
  cases hget .palette
  cases hget .logLevel
  cases hdebug
  rfl

end Options

theorem readGiven_of_ne {α : Type} {read : String → Except Error α} {text : String} {a : α}
    (hne : text ≠ blankText) (hread : read text = .ok a) :
    readGiven read text = .ok (.value a) := by
  rw [readGiven, if_neg hne, hread]
  rfl

/-- An integer in its usual form is read as itself. -/
theorem readGiven_readInteger (s : Setting) {n : Int}
    (h : (Nat.toDigits 10 n.natAbs).length ≤ 4300) :
    readGiven (readInteger s) (toString n) = .ok (.value n) := by
  have hread : Numeral.decimal? (toString n) = some n :=
    Numeral.decimal?_eq_some_iff.2 (Numeral.denotes_toString h)
  refine readGiven_of_ne ?_ (by rw [readInteger, hread])
  intro hblank
  have hnone : Numeral.decimal? blankText = none := by decide
  rw [hblank, hnone] at hread
  cases hread

/-- One of the choices is accepted, unless the choices have one that stands for a blank. -/
theorem readGiven_choose (s : Setting) {choices : List String} {name : String}
    (hblank : blankText ∉ choices) (h : name ∈ choices) :
    readGiven (choose s choices) name = .ok (.value name) := by
  refine readGiven_of_ne ?_ (by rw [choose, if_pos h])
  rintro rfl
  exact hblank h

/-- A setting takes the value whose text it is given. -/
theorem assign_render (o : Options) {s : Setting} {v : s.Value} (h : s.Accepts v) :
    o.assign s (s.render v) = .ok (o.put s v) := by
  cases s with
  | clockSpeed | scale =>
    rw [Options.assign, Setting.render, readGiven_readInteger _ h]
    rfl
  | renderer | logLevel =>
    rw [Options.assign, Setting.render, readGiven_choose _ (by decide) h]
    rfl
  | keymap | palette =>
    rw [Options.assign, Setting.render, readGiven_of_ne h rfl]
    rfl

/-! ## Entries -/

/-- One part of a request. -/
inductive Entry where
  /-- The name of the program's file. -/
  | filename (name : String)
  /-- A setting with a value. -/
  | setting (s : Setting) (value : s.Value)
  /-- That tracing is on. -/
  | debug

namespace Entry

/-- The argument that an entry is written as. -/
def text : Entry → String
  | .filename name => name
  | .setting s v => (Flag.setting s).long ++ "=" ++ s.render v
  | .debug => (Flag.switch .debug).long

/-- The name of a file does not start like an option, and a setting accepts its value. -/
def Allowed : Entry → Prop
  | .filename name => name.toList.head? ≠ some '-'
  | .setting s v => s.Accepts v
  | .debug => True

/-- The name of the file, if the entry is one. -/
def filename? : Entry → Option String
  | .filename name => some name
  | _ => none

/-- The value for a setting, if the entry gives one. -/
def value? (s : Setting) : Entry → Option s.Value
  | .setting t v => if h : t = s then some (h ▸ v) else none
  | _ => none

/-- Whether the entry turns tracing on. -/
def isDebug : Entry → Bool
  | .debug => true
  | _ => false

/-- What the argument of an entry says. -/
def word : Entry → Word
  | .filename _ => .plain
  | .setting s v => .options [] (.value s (s.render v))
  | .debug => .options [.debug] .none

@[simp] theorem value?_self (s : Setting) (v : s.Value) : value? s (.setting s v) = some v :=
  dif_pos rfl

theorem value?_of_ne {s t : Setting} (h : t ≠ s) (v : t.Value) : value? s (.setting t v) = none :=
  dif_neg h

end Entry

/-- A long name with an equals sign behind it gives the option the text behind that sign. -/
theorem ofArg_long (s : Setting) (value : String) :
    Word.ofArg ((Flag.setting s).long ++ "=" ++ value) = .ok (.options [] (.value s value)) := by
  have hchars : ((Flag.setting s).long ++ "=" ++ value).toList =
      '-' :: '-' :: ((Flag.setting s).name.toList ++ '=' :: value.toList) := by
    simp [Flag.long]
  have hname : ∀ c ∈ (Flag.setting s).name.toList, decide (c ≠ '=') = true := by
    cases s <;> simp [Flag.name]
  have hsplit : Word.splitValue ((Flag.setting s).name.toList ++ '=' :: value.toList) =
      ((Flag.setting s).name.toList, some value) := by
    rw [Word.splitValue, List.takeWhile_append_of_pos hname, List.dropWhile_append_of_pos hname]
    simp
  have hflag : Flag.startingWith (Flag.setting s).name.toList = [.setting s] := by
    cases s <;> decide
  rw [Word.ofArg, hchars]
  simp only [hsplit, hflag, Word.ofName]

variable {e : Entry} {es : List Entry} {s : Setting}

theorem ofArg_text (h : e.Allowed) : Word.ofArg e.text = .ok e.word := by
  cases e with
  | filename name =>
    rw [Entry.text, Word.ofArg]
    split
    · rename_i rest hchars
      rw [Entry.Allowed, hchars] at h
      exact absurd rfl h
    · rename_i c rest _ hchars
      rw [Entry.Allowed, hchars] at h
      exact absurd rfl h
    · rfl
  | setting s v => exact ofArg_long s _
  | debug => decide

theorem text_ne (h : e.Allowed) : e.text ≠ "--" := by
  intro htext
  have hword := ofArg_text h
  have hdashes : Word.ofArg "--" = .error (.ambiguous "--" Flag.all) := by decide
  rw [htext, hdashes] at hword
  cases hword

/-- Allowed entries are read each by itself, and none of them ends the options. -/
theorem ofArgs_text (h : ∀ e ∈ es, e.Allowed) :
    Line.ofArgs (es.map Entry.text) =
      .ok { words := es.map fun e => (e.text, e.word), rest := none } := by
  induction es with
  | nil => rfl
  | cons e es ih =>
    have he := h e (List.mem_cons_self ..)
    have hes := ih fun e' he' => h e' (List.mem_cons_of_mem _ he')
    simp only [List.map_cons, Line.ofArgs, if_neg (text_ne he), ofArg_text he, hes]

/-! ## Drafts -/

namespace Draft

variable {d : Draft}

/-- Takes an entry. -/
def enter (d : Draft) : Entry → Draft
  | .filename name => d.addPlain name
  | .setting s v => { d with options := d.options.put s v, atFilename := false }
  | .debug => { d with options.debug := true, atFilename := false }

theorem options_addPlain (d : Draft) (arg : String) : (d.addPlain arg).options = d.options := by
  rw [addPlain]
  split <;> rfl

/-- What is read from the arguments of allowed entries is the entries, one after the other. -/
theorem consume_entries (h : ∀ e ∈ es, e.Allowed) (d : Draft) :
    d.consume (es.map fun e => (e.text, e.word)) = .ok (es.foldl enter d) := by
  induction es generalizing d with
  | nil => rfl
  | cons e es ih =>
    have he := h e (List.mem_cons_self ..)
    have hes := ih fun e' he' => h e' (List.mem_cons_of_mem _ he')
    rw [List.map_cons, List.foldl_cons]
    cases e with
    | filename name => exact hes _
    | setting s v =>
      rw [Entry.word, consume, takeSetting, takeSwitches]
      simp only [assign_render _ he]
      exact hes _
    | debug => exact hes _

theorem get_enter (d : Draft) (e : Entry) (s : Setting) :
    (d.enter e).options.get s = ((e.value? s).map Given.value).getD (d.options.get s) := by
  cases e with
  | filename name =>
    rw [enter, options_addPlain]
    rfl
  | setting t v =>
    by_cases hts : t = s
    · subst hts
      simp [enter, Options.get_put_self]
    · simp [enter, Entry.value?_of_ne hts, Options.get_put_of_ne _ hts]
  | debug => cases s <;> rfl

/-- Of the values for a setting the last one counts. -/
theorem get_enterAll (es : List Entry) (d : Draft) (s : Setting) :
    (es.foldl enter d).options.get s =
      ((es.filterMap (Entry.value? s)).getLast?.map Given.value).getD (d.options.get s) := by
  induction es using List.reverseRecOn with
  | nil => rfl
  | append_singleton es e ih =>
    rw [List.foldl_append, List.foldl_cons, List.foldl_nil, get_enter, ih, List.filterMap_append]
    cases hvalue : e.value? s with
    | none => simp [hvalue]
    | some v => simp [hvalue]

theorem debug_enterAll (es : List Entry) (d : Draft) :
    (es.foldl enter d).options.debug = (d.options.debug || es.any Entry.isDebug) := by
  induction es generalizing d with
  | nil => simp
  | cons e es ih =>
    rw [List.foldl_cons, ih, List.any_cons, ← Bool.or_assoc]
    congr 1
    cases e with
    | filename name => simp [enter, options_addPlain, Entry.isDebug]
    | setting s v => simp [enter, Entry.isDebug]
    | debug => simp [enter, Entry.isDebug]

/-- If there is one file name in all, it is taken, and nothing is put aside. -/
theorem filename_enterAll {name : String}
    (h : d.filename.toList ++ es.filterMap Entry.filename? = [name]) :
    (es.foldl enter d).filename = some name ∧ (es.foldl enter d).extras = d.extras := by
  induction es generalizing d with
  | nil => simpa using h
  | cons e es ih =>
    rw [List.foldl_cons]
    cases e with
    | filename name' =>
      -- A second name would make two of them.
      cases hd : d.filename with
      | none =>
        have hadd : d.enter (.filename name') =
            { d with filename := some name', atFilename := true } := by
          rw [enter, addPlain, hd]
        rw [hd] at h
        rw [hadd]
        exact ih h
      | some name'' =>
        rw [hd] at h
        cases h
    | setting s v => exact ih h
    | debug => exact ih h

end Draft

/-! ## Requests -/

/-- What a user wants of a run. -/
structure Request where
  /-- The name of the program's file. -/
  filename : String
  /-- The value for a setting, if it has one. -/
  value? : (s : Setting) → Option s.Value
  /-- Whether tracing is on. -/
  debug : Bool

namespace Request

/-- The name of the file does not start like an option, and each setting accepts its value. -/
structure Allowed (q : Request) : Prop where
  /-- The name of the file does not start like an option. -/
  filename : q.filename.toList.head? ≠ some '-'
  /-- Each setting accepts its value. -/
  accepts : ∀ s, ∀ v ∈ q.value? s, s.Accepts v

/-- The entry for an option, if the request has one. -/
def entryOf? (q : Request) : Flag → Option Entry
  | .switch .help => none
  | .switch .debug => if q.debug then some .debug else none
  | .setting s => (q.value? s).map (.setting s)

/-- The entries of a request, the options behind the name of the file. -/
def entries (q : Request) : List Entry := .filename q.filename :: Flag.all.filterMap q.entryOf?

/-- A setting with a value is given that value, and one without is not given. -/
def given {α : Type} : Option α → Given α
  | none => .absent
  | some a => .value a

/-- What a request comes to: a setting without a value is absent, but for the key map, which is the
standard one then. -/
def settings (q : Request) : Settings where
  filename := some q.filename
  clockSpeed := given (q.value? .clockSpeed)
  renderer := given (q.value? .renderer)
  scale := given (q.value? .scale)
  keymap := .value ((q.value? .keymap).getD Keymap.standardText)
  palette := given (q.value? .palette)
  logLevel := given (q.value? .logLevel)
  debug := q.debug

/-- The request that entries amount to: of the values for a setting the last one counts. -/
def ofEntries (name : String) (es : List Entry) : Request where
  filename := name
  value? s := (es.filterMap (Entry.value? s)).getLast?
  debug := es.any Entry.isDebug

variable {q : Request} {e : Entry} {es : List Entry} {s : Setting} {name : String}

theorem get_settings (q : Request) (s : Setting) :
    q.settings.toOptions.get s =
      ((q.value? s).map Given.value).getD (({} : Options).get s) := by
  cases s <;> simp only [settings, Options.get] <;> cases q.value? _ <;> rfl

/-! ## Entries of a request -/

theorem allowed_of_mem_entries (hq : q.Allowed) (he : e ∈ q.entries) : e.Allowed := by
  rw [entries, List.mem_cons, List.mem_filterMap] at he
  obtain rfl | ⟨f, -, hf⟩ := he
  · exact hq.filename
  cases f with
  | switch switch =>
    cases switch with
    | help => cases hf
    | debug =>
      rw [entryOf?, Option.ite_none_right_eq_some] at hf
      cases hf.2
      trivial
  | setting s =>
    obtain ⟨v, hv, rfl⟩ := Option.map_eq_some_iff.1 hf
    exact hq.accepts s v hv

theorem filename?_entries (q : Request) : q.entries.filterMap Entry.filename? = [q.filename] := by
  have hnone : ∀ f ∈ Flag.all, (q.entryOf? f).bind Entry.filename? = none := by
    intro f _
    rcases f with (_ | _) | s
    · rfl
    · cases hd : q.debug <;> simp [entryOf?, hd, Entry.filename?]
    · cases hv : q.value? s <;> simp [entryOf?, hv, Entry.filename?]
  have hfirst : Entry.filename? (.filename q.filename) = some q.filename := rfl
  rw [entries, List.filterMap_cons_some hfirst, List.filterMap_filterMap,
    List.filterMap_eq_nil_iff.2 hnone]

theorem value?_entryOf? (q : Request) (f : Flag) (s : Setting) :
    (q.entryOf? f).bind (Entry.value? s) = if f = .setting s then q.value? s else none := by
  rcases f with (_ | _) | t
  · rfl
  · cases hd : q.debug <;> simp [entryOf?, hd, Entry.value?]
  · by_cases hts : t = s
    · subst hts
      cases hv : q.value? t <;> simp [entryOf?, hv]
    · cases hv : q.value? t <;> simp [entryOf?, hv, hts, Entry.value?_of_ne hts]

theorem value?_entries (q : Request) (s : Setting) :
    q.entries.filterMap (Entry.value? s) = (q.value? s).toList := by
  rw [entries, List.filterMap_cons_none rfl, List.filterMap_filterMap]
  simp only [value?_entryOf?]
  generalize q.value? s = v
  cases s <;> cases v <;> rfl

theorem isDebug_entryOf? (q : Request) (f : Flag) :
    (q.entryOf? f).any Entry.isDebug = (f == .switch .debug && q.debug) := by
  rcases f with (_ | _) | s
  · rfl
  · cases hd : q.debug <;> simp [entryOf?, hd, Entry.isDebug]
  · cases hv : q.value? s <;> simp [entryOf?, hv, Entry.isDebug]

theorem isDebug_entries (q : Request) : q.entries.any Entry.isDebug = q.debug := by
  rw [entries, List.any_cons, List.any_filterMap]
  show (Flag.all.any fun f => (q.entryOf? f).any Entry.isDebug) = q.debug
  simp only [isDebug_entryOf?]
  cases q.debug <;> rfl

/-- In whatever order the entries of a request stand, they amount to the request. -/
theorem ofEntries_of_perm (h : es.Perm q.entries) : ofEntries q.filename es = q := by
  have hvalue : ∀ s, (es.filterMap (Entry.value? s)).getLast? = q.value? s := by
    intro s
    have hperm := h.filterMap (Entry.value? s)
    rw [value?_entries] at hperm
    cases hv : q.value? s with
    | none =>
      rw [hv] at hperm
      rw [hperm.eq_nil]
      rfl
    | some v =>
      rw [hv] at hperm
      rw [List.perm_singleton.1 hperm]
      rfl
  have hdebug : es.any Entry.isDebug = q.debug := by
    rw [h.any_eq, isDebug_entries]
  obtain ⟨filename, value?, debug⟩ := q
  simp only [ofEntries, hvalue, hdebug]

end Request

variable {name : String}

/-- Allowed entries with one file name among them are read as the request that they amount to. -/
theorem parse_entries (h : ∀ e ∈ es, e.Allowed) (hname : es.filterMap Entry.filename? = [name]) :
    parse (es.map Entry.text) = .ok (Request.ofEntries name es).settings := by
  obtain ⟨hfilename, hextras⟩ := Draft.filename_enterAll (d := {}) hname
  have hoptions : (es.foldl Draft.enter {}).options =
      (Request.ofEntries name es).settings.toOptions := by
    refine Options.eq_of_get (fun s => ?_) ?_
    · rw [Draft.get_enterAll, Request.get_settings]
      rfl
    · rw [Draft.debug_enterAll]
      rfl
  rw [parse, ofArgs_text h]
  simp only [Draft.consume_entries h, Option.map_none, Option.getD_none, Draft.settings, hfilename,
    hextras, hoptions]
  rfl

/-- **Requests.** Written with an argument for each of its parts, in any order, a request is read
back as what it comes to. Where several arguments give values to one setting, the last of them
counts. -/
theorem parse_requests :
    (∀ q : Request, q.Allowed → ∀ es : List Entry, es.Perm q.entries →
      parse (es.map Entry.text) = .ok q.settings) ∧
    ∀ (name : String) (es : List Entry), (∀ e ∈ es, e.Allowed) →
      es.filterMap Entry.filename? = [name] →
      parse (es.map Entry.text) =
        .ok (Request.settings {
          filename := name
          value? := fun s => (es.filterMap (Entry.value? s)).getLast?
          debug := es.any Entry.isDebug }) := by
  refine ⟨fun q hq es hes => ?_, fun name es h hname => parse_entries h hname⟩
  have hallowed : ∀ e ∈ es, e.Allowed := fun e he =>
    Request.allowed_of_mem_entries hq (hes.mem_iff.1 he)
  have hname : es.filterMap Entry.filename? = [q.filename] := by
    have hperm := hes.filterMap Entry.filename?
    rw [Request.filename?_entries] at hperm
    exact List.perm_singleton.1 hperm
  rw [parse_entries hallowed hname, Request.ofEntries_of_perm hes]

/-- A request whose key map looks like a switch with a value and whose file has no name, with its
arguments from the last to the first, and again behind a key map that does not count. -/
theorem parse_requests_reversed :
    let q : Request :=
      { filename := ""
        value? := fun
          | .scale => some (-5)
          | .keymap => some "--debug=1 ="
          | _ => none
        debug := true }
    let es : List Entry :=
      [.debug, .setting .keymap "--debug=1 =", .setting .scale (-5), .filename ""]
    let again : List Entry := .setting .keymap "a" :: es
    q.Allowed ∧ es.Perm q.entries ∧
      parse ["--debug", "--keymap=--debug=1 =", "--scale=-5", ""] = .ok q.settings ∧
      (∀ e ∈ again, e.Allowed) ∧ again.filterMap Entry.filename? = [""] ∧
      parse ["--keymap=a", "--debug", "--keymap=--debug=1 =", "--scale=-5", ""] =
        .ok q.settings := by
  intro q es again
  have hq : q.Allowed := by
    refine ⟨by decide, fun s v hv => ?_⟩
    cases s <;> cases hv
    · show (Nat.toDigits 10 5).length ≤ 4300
      decide
    · show "--debug=1 =" ≠ blankText
      decide
  have hperm : es.Perm q.entries := List.reverse_perm q.entries
  have hallowed : ∀ e ∈ again, e.Allowed := by
    intro e he
    obtain rfl | he := List.mem_cons.1 he
    · show "a" ≠ blankText
      decide
    · exact Request.allowed_of_mem_entries hq (hperm.mem_iff.1 he)
  have hname : again.filterMap Entry.filename? = [""] := rfl
  have htexts : es.map Entry.text =
      ["--debug", "--keymap=--debug=1 =", "--scale=-5", ""] := by decide
  have hagain : again.map Entry.text =
      ["--keymap=a", "--debug", "--keymap=--debug=1 =", "--scale=-5", ""] := by decide
  refine ⟨hq, hperm, ?_, hallowed, hname, ?_⟩
  · rw [← htexts]
    exact parse_requests.1 q hq es hperm
  · rw [← hagain, parse_requests.2 "" again hallowed hname]
    rfl

end Chip8.CommandLine
