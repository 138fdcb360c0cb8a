import Polyglot.Config.Reader
import Polyglot.Proofs.Language
import Polyglot.Proofs.Outcome
import Polyglot.Proofs.Text.Blanks
import Polyglot.Proofs.Text.Distinct

/-!
Reading configurations from values. Entries describe at most one configuration, and it is read if it can be used.
Otherwise it is told what is wrong, but for a time to wait that is too large.
-/

namespace Polyglot.Config

/--
Whether an error tells what is wrong with a configuration, or that there is none.
-/
def ConfigError.IsReported : ConfigError → Prop
  | .schema _ | .noFile _ => True
  | _ => False

def Refuses (P : Prop) (e : ConfigError) : Prop :=
  e.IsReported ∧ ¬ P

theorem refusing {α : Type} {P Q : Prop} {x : Result α} {done : α → Prop} (h : Gives (Refuses P) done x)
    (hQ : Q → P) : Gives (Refuses Q) done x :=
  h.imp (fun _ he => ⟨he.1, he.2 ∘ hQ⟩) fun _ => id

theorem describing {α β : Type} {A : α → Prop} {P : β → Prop} {Q : α → β → Prop} {x : Result α}
    (h : Gives (Refuses (∃ a, A a)) A x) (hunique : ∀ a a', A a → A a' → a = a')
    (hP : ∀ c, P c → ∃ a, A a ∧ Q a c) :
    Gives (Refuses (∃ c, P c)) (fun a => A a ∧ ∀ c, P c → Q a c) x := by
  refine (refusing h ?_).imp (fun _ => id) fun a ha => ⟨ha, fun c hc => ?_⟩
  · rintro ⟨c, hc⟩
    obtain ⟨a, ha, -⟩ := hP c hc
    exact ⟨a, ha⟩
  · obtain ⟨a', ha', hQ⟩ := hP c hc
    exact hunique a' a ha' ha ▸ hQ

section Descriptions

inductive TextOf : Value → String → Prop where
  | str (s : String) : TextOf (.str s) (Text.trimmed s)

inductive IntegerOf : Value → Int → Prop where
  | int (n : Int) : IntegerOf (.int n) n

inductive TruthOf : Value → Bool → Prop where
  | bool (b : Bool) : TruthOf (.bool b) b

inductive EntriesOf : Value → Fields → Prop where
  | null : EntriesOf .null []
  | map (fs : Fields) : EntriesOf (.map fs) fs

inductive TimeoutOf : Value → Option Binary64 → Prop where
  | null : TimeoutOf .null none
  | float (x : Binary64) : TimeoutOf (.float x) (some x)
  | int {n : Int} (hsmall : ¬ (Binary64.ofInt n).isInfinite) : TimeoutOf (.int n) (some (Binary64.ofInt n))

/--
The names of plugins that a list gives: each once, in the order of first appearance, without blank ends.
-/
inductive PluginsOf : Value → List String → Prop where
  | list {ss : List String} (hss : ∀ s ∈ ss, ¬ Text.allBlank s.toList) :
      PluginsOf (.list (ss.map .str)) (ss.map Text.trimmed).eraseDups

/--
What the value under a key stands for; the default where there is none.
-/
inductive At {α : Type} (es : Fields) (key : String) (R : Value → α → Prop) (default : α) : α → Prop where
  | absent (h : Value.find? es key = none) : At es key R default default
  | given {v : Value} {a : α} (h : Value.find? es key = some v) (ha : R v a) : At es key R default a

structure ComponentOf (fs : Fields) (c : ComponentConfig) : Prop where
  scopeStart : At fs "scope_prefix" TextOf Style.defaultScopeStart c.scopeStart
  scopeSalt : At fs "scope_salt" TextOf Style.defaultScopeSalt c.scopeSalt
  markup : At fs "markup_lang" TextOf "html" c.markup
  logic : At fs "logic_lang" TextOf "py" c.logic
  style : At fs "style_lang" TextOf "css" c.style
  maxDepth : At fs "max_depth" IntegerOf 32 c.maxDepth

structure DirectoriesOf (fs : Fields) (d : Directories) : Prop where
  root : At fs "root_dir" TextOf "." d.root
  source : At fs "src_dir" TextOf "src" d.source
  output : At fs "output_dir" TextOf "output" d.output

/--
What is read of a configuration before its loader.
-/
structure Leads (es : Fields) (c : Config) : Prop where
  version : Value.find? es "version" = some (.int c.version)
  component : ∃ fs, At es "component" EntriesOf [] fs ∧ ComponentOf fs c.component
  logLevel : At es "log_level" TextOf "INFO" c.logLevel
  debug : At es "debug" TruthOf false c.debug
  directories : ∃ fs, At es "paths" EntriesOf [] fs ∧ DirectoriesOf fs c.directories

/--
The configuration that entries describe.
-/
structure Describes (es : Fields) (c : Config) : Prop extends Leads es c where
  timeout : ∃ fs, At es "loader" EntriesOf [] fs ∧ At fs "timeout_seconds" TimeoutOf none c.timeout
  plugins : At es "plugins" PluginsOf builtinPlugins c.plugins
  executerOptions : At es "executer_options" EntriesOf [] c.executerOptions

structure ComponentConfig.Sound (c : ComponentConfig) : Prop where
  markup : IsWord c.markup
  logic : IsWord c.logic
  style : IsWord c.style
  maxDepth : 0 < c.maxDepth
  scopeStart : c.scopeStart ≠ ""

end Descriptions

end Polyglot.Config

namespace Polyglot

/--
A configuration that can be used.
-/
structure Config.Sound (c : Config) : Prop where
  version : c.version = 1
  component : c.component.Sound
  distinct : c.plugins.Nodup
  stripped : ∀ p ∈ c.plugins, ¬ Text.allBlank p.toList ∧ Text.trimmed p = p

end Polyglot

namespace Polyglot.Config

section Readers

variable {α : Type} {es fs fs' : Fields} {key default t : String} {R : Value → α → Prop} {v : Value}
  {a a' d : α}

theorem At.unique (hR : ∀ v a a', R v a → R v a' → a = a') (h : At es key R d a) (h' : At es key R d a') :
    a = a' := by
  cases h with
  | absent hnone =>
    cases h' with
    | absent _ => rfl
    | given hsome _ => cases hnone.symm.trans hsome
  | given hsome ha =>
    cases h' with
    | absent hnone => cases hnone.symm.trans hsome
    | given hsome' ha' =>
      obtain rfl := Option.some.inj (hsome.symm.trans hsome')
      exact hR _ _ _ ha ha'

theorem At.of_some (h : At es key R d a) (hv : Value.find? es key = some v) : R v a := by
  cases h with
  | absent hnone => cases hnone.symm.trans hv
  | given hsome ha =>
    obtain rfl := Option.some.inj (hsome.symm.trans hv)
    exact ha

theorem At.text_unique {t t' : String} (h : At es key TextOf default t) (h' : At es key TextOf default t') :
    t = t' := by
  refine h.unique (fun v t t' ht ht' => ?_) h'
  cases ht
  cases ht'
  rfl

theorem At.integer_unique {n n' d : Int} (h : At es key IntegerOf d n) (h' : At es key IntegerOf d n') :
    n = n' := by
  refine h.unique (fun v n n' hn hn' => ?_) h'
  cases hn
  cases hn'
  rfl

theorem At.truth_unique {b b' d : Bool} (h : At es key TruthOf d b) (h' : At es key TruthOf d b') :
    b = b' := by
  refine h.unique (fun v b b' hb hb' => ?_) h'
  cases hb
  cases hb'
  rfl

theorem At.entries_unique (h : At es key EntriesOf [] fs) (h' : At es key EntriesOf [] fs') : fs = fs' := by
  refine h.unique (fun v fs fs' hfs hfs' => ?_) h'
  cases hfs <;> cases hfs' <;> rfl

theorem At.timeout_unique {t t' : Option Binary64} (h : At es key TimeoutOf none t)
    (h' : At es key TimeoutOf none t') : t = t' := by
  refine h.unique (fun v t t' ht ht' => ?_) h'
  cases ht <;> cases ht' <;> rfl

theorem At.plugins_unique {ps ps' ds : List String} (h : At es key PluginsOf ds ps)
    (h' : At es key PluginsOf ds ps') : ps = ps' := by
  refine h.unique (fun v ps ps' hps hps' => ?_) h'
  -- A list of texts is no pattern to match on: which texts they are follows from their values.
  generalize hv : v = v' at hps'
  cases hps with
  | list _ =>
    cases hps' with
    | list _ =>
      have hmap := Value.list.inj hv
      rw [List.map_inj_right fun _ _ => Value.str.inj] at hmap
      rw [hmap]

theorem ComponentOf.unique {c c' : ComponentConfig} (h : ComponentOf fs c) (h' : ComponentOf fs c') :
    c = c' := by
  obtain ⟨hstart, hsalt, hmarkup, hlogic, hstyle, hdepth⟩ := h
  cases c
  cases c'
  rw [ComponentConfig.mk.injEq]
  exact ⟨hstart.text_unique h'.scopeStart, hsalt.text_unique h'.scopeSalt, hmarkup.text_unique h'.markup,
    hlogic.text_unique h'.logic, hstyle.text_unique h'.style,
    Int.ofNat.inj (hdepth.integer_unique h'.maxDepth)⟩

theorem DirectoriesOf.unique {d d' : Directories} (h : DirectoriesOf fs d) (h' : DirectoriesOf fs d') :
    d = d' := by
  obtain ⟨hroot, hsource, houtput⟩ := h
  cases d
  cases d'
  rw [Directories.mk.injEq]
  exact ⟨hroot.text_unique h'.root, hsource.text_unique h'.source, houtput.text_unique h'.output⟩

theorem Describes.unique {c c' : Config} (h : Describes es c) (h' : Describes es c') : c = c' := by
  obtain ⟨⟨hversion, ⟨fs, hfs, hcomponent⟩, hlogLevel, hdebug, ⟨paths, hpaths, hdirectories⟩⟩,
    ⟨loader, hloader, htimeout⟩, hplugins, hoptions⟩ := h
  obtain ⟨⟨hversion', ⟨fs', hfs', hcomponent'⟩, hlogLevel', hdebug', ⟨paths', hpaths', hdirectories'⟩⟩,
    ⟨loader', hloader', htimeout'⟩, hplugins', hoptions'⟩ := h'
  obtain rfl := hfs.entries_unique hfs'
  obtain rfl := hpaths.entries_unique hpaths'
  obtain rfl := hloader.entries_unique hloader'
  cases c
  cases c'
  rw [Config.mk.injEq]
  exact ⟨Value.int.inj (Option.some.inj (hversion.symm.trans hversion')), hlogLevel.text_unique hlogLevel',
    hdebug.truth_unique hdebug', hdirectories.unique hdirectories', hcomponent.unique hcomponent',
    htimeout.timeout_unique htimeout', hplugins.plugins_unique hplugins', hoptions.entries_unique hoptions'⟩

theorem gives_text (es : Fields) (key : String) (hdefault : Text.trimmed default = default) :
    Gives (Refuses (∃ t, At es key TextOf default t)) (At es key TextOf default)
      (text es key default) := by
  rw [text.eq_def, hdefault]
  split
  · next hnone => exact .absent hnone
  · next s hsome => exact .given hsome (.str s)
  · next v hother hsome =>
    refine ⟨trivial, fun ⟨t, ht⟩ => ?_⟩
    cases ht.of_some hsome with
    | str s => exact hother s rfl

theorem gives_integer (es : Fields) (key : String) :
    Gives (Refuses (∃ n, Value.find? es key = some (.int n)))
      (fun n => Value.find? es key = some (.int n)) (integer es key) := by
  rw [integer.eq_def]
  split
  · next hsome => exact hsome
  · next hother => exact ⟨trivial, fun ⟨n, hn⟩ => hother n hn⟩

theorem gives_integerOr (es : Fields) (key : String) (default : Int) :
    Gives (Refuses (∃ n, At es key IntegerOf default n)) (At es key IntegerOf default)
      (integerOr es key default) := by
  rw [integerOr.eq_def]
  split
  · next hnone => exact .absent hnone
  · next v hsome =>
    refine (refusing (gives_integer es key) ?_).imp (fun _ => id) fun n hn => .given hn (.int n)
    rintro ⟨n, hn⟩
    cases hn.of_some hsome with
    | int n => exact ⟨n, hsome⟩

theorem gives_truth (es : Fields) (key : String) (default : Bool) :
    Gives (Refuses (∃ b, At es key TruthOf default b)) (At es key TruthOf default)
      (truth es key default) := by
  rw [truth.eq_def]
  split
  · next hnone => exact .absent hnone
  · next b hsome => exact .given hsome (.bool b)
  · next v hother hsome =>
    refine ⟨trivial, fun ⟨b, hb⟩ => ?_⟩
    cases hb.of_some hsome with
    | bool b => exact hother b rfl

theorem gives_object (es : Fields) (key : String) :
    Gives (Refuses (∃ fs, At es key EntriesOf [] fs)) (At es key EntriesOf [])
      (object (.map es) key) := by
  rw [object.eq_def, Value.getD, Value.get?]
  cases hfind : Value.find? es key with
  | none => exact .absent hfind
  | some v =>
    rw [Option.getD_some]
    split
    · exact .given hfind .null
    · next fs => exact .given hfind (.map fs)
    · next hnull hmap =>
      refine ⟨trivial, fun ⟨fs, hfs⟩ => ?_⟩
      cases hfs.of_some hfind with
      | null => exact hnull rfl
      | map fs => exact hmap fs rfl

end Readers

section Parts

variable {es fs : Fields} {key default s t : String}

theorem isWord_of_trimmed (hname : Language.isName s) (htrim : Text.trimmed s = s) : IsWord s := by
  rcases Language.isName_iff.mp hname with h | ⟨word, hword, rfl⟩
  · exact h
  · have htight : Text.Tight (word ++ "\n").toList := by
      refine Text.tight_of_trim (by simp) ?_
      have := congrArg String.toList htrim
      rwa [Text.trimmed, String.toList_ofList] at this
    have hlast := (Text.tight_iff.mp htight).2.2 '\n' (by simp)
    exact absurd hlast (by decide)

theorem At.trimmed (h : At es key TextOf default t) (hdefault : Text.trimmed default = default) :
    Text.trimmed t = t := by
  cases h with
  | absent _ => exact hdefault
  | given _ ht =>
    cases ht with
    | str s => exact Text.trimmed_trimmed s

theorem At.isWord (h : At es key TextOf default t) (hdefault : Text.trimmed default = default)
    (hname : Language.isName t) : IsWord t :=
  isWord_of_trimmed hname (h.trimmed hdefault)

theorem isName_of_isWord (h : IsWord s) : Language.isName s :=
  Language.isName_iff.mpr (.inl h)

theorem gives_readComponent (fs : Fields) :
    Gives (Refuses (∃ c, ComponentOf fs c ∧ c.Sound)) (fun c => ComponentOf fs c ∧ c.Sound)
      (readComponent fs) := by
  rw [readComponent]
  refine (describing (Q := fun t c => c.scopeStart = t) (gives_text fs "scope_prefix" rfl)
    (fun _ _ => At.text_unique) fun c hc => ⟨_, hc.1.scopeStart, rfl⟩).bind fun scopeStart _ hstart => ?_
  refine (refusing (gives_text fs "scope_salt" rfl) fun ⟨c, hc⟩ => ⟨_, hc.1.scopeSalt⟩).bind
    fun scopeSalt _ hsalt => ?_
  refine (describing (Q := fun t c => c.markup = t) (gives_text fs "markup_lang" rfl)
    (fun _ _ => At.text_unique) fun c hc => ⟨_, hc.1.markup, rfl⟩).bind fun markup _ hmarkup => ?_
  refine (describing (Q := fun t c => c.logic = t) (gives_text fs "logic_lang" rfl)
    (fun _ _ => At.text_unique) fun c hc => ⟨_, hc.1.logic, rfl⟩).bind fun logic _ hlogic => ?_
  refine (describing (Q := fun t c => c.style = t) (gives_text fs "style_lang" rfl)
    (fun _ _ => At.text_unique) fun c hc => ⟨_, hc.1.style, rfl⟩).bind fun style _ hstyle => ?_
  refine (describing (Q := fun n c => (c.maxDepth : Int) = n) (gives_integerOr fs "max_depth" 32)
    (fun _ _ => At.integer_unique) fun c hc => ⟨_, hc.1.maxDepth, rfl⟩).bind fun maxDepth _ hdepth => ?_
  -- Each check asks of what has been read just what the described configuration would have to meet.
  split
  · next hname =>
    refine ⟨trivial, fun ⟨c, hc⟩ => ?_⟩
    simp [← hmarkup.2 c hc, isName_of_isWord hc.2.markup] at hname
  next hmarkupName =>
  split
  · next hname =>
    refine ⟨trivial, fun ⟨c, hc⟩ => ?_⟩
    simp [← hlogic.2 c hc, isName_of_isWord hc.2.logic] at hname
  next hlogicName =>
  split
  · next hname =>
    refine ⟨trivial, fun ⟨c, hc⟩ => ?_⟩
    simp [← hstyle.2 c hc, isName_of_isWord hc.2.style] at hname
  next hstyleName =>
  split
  · next hle =>
    refine ⟨trivial, fun ⟨c, hc⟩ => ?_⟩
    rw [← hdepth.2 c hc] at hle
    exact absurd hc.2.maxDepth (by omega)
  next hlt =>
  split
  · next hempty =>
    refine ⟨trivial, fun ⟨c, hc⟩ => ?_⟩
    rw [← hstart.2 c hc] at hempty
    exact hc.2.scopeStart (String.isEmpty_iff.mp hempty)
  next hnonempty =>
  simp only [Bool.not_eq_true', Bool.not_eq_false] at hmarkupName hlogicName hstyleName
  rw [Int.not_le] at hlt
  exact ⟨{
    scopeStart := hstart.1
    scopeSalt := hsalt
    markup := hmarkup.1
    logic := hlogic.1
    style := hstyle.1
    maxDepth := by
      rw [Int.toNat_of_nonneg (Int.le_of_lt hlt)]
      exact hdepth.1 }, {
    markup := hmarkup.1.isWord rfl hmarkupName
    logic := hlogic.1.isWord rfl hlogicName
    style := hstyle.1.isWord rfl hstyleName
    maxDepth := Int.lt_toNat.mpr hlt
    scopeStart := fun h => hnonempty (String.isEmpty_iff.mpr h) }⟩

theorem gives_readDirectories (fs : Fields) :
    Gives (Refuses (∃ d, DirectoriesOf fs d)) (DirectoriesOf fs) (readDirectories fs) := by
  rw [readDirectories]
  refine (refusing (gives_text fs "root_dir" rfl) fun ⟨d, hd⟩ => ⟨_, hd.root⟩).bind fun root _ hroot => ?_
  refine (refusing (gives_text fs "src_dir" rfl) fun ⟨d, hd⟩ => ⟨_, hd.source⟩).bind
    fun source _ hsource => ?_
  refine (refusing (gives_text fs "output_dir" rfl) fun ⟨d, hd⟩ => ⟨_, hd.output⟩).bind
    fun output _ houtput => ?_
  exact ⟨hroot, hsource, houtput⟩

theorem gives_readTimeout (fs : Fields) :
    Gives (fun e => Refuses (∃ t, At fs "timeout_seconds" TimeoutOf none t) e ∨ e = .timeoutTooLarge ∧
        ∃ n, Value.find? fs "timeout_seconds" = some (.int n) ∧ (Binary64.ofInt n).isInfinite)
      (At fs "timeout_seconds" TimeoutOf none) (readTimeout fs) := by
  rw [readTimeout.eq_def]
  cases hfind : Value.find? fs "timeout_seconds" with
  | none => exact .absent hfind
  | some v =>
    rw [Option.getD_some]
    split
    · exact .given hfind .null
    · next x => exact .given hfind (.float x)
    · next n =>
      simp only []
      split
      · next hlarge => exact .inr ⟨rfl, n, rfl, hlarge⟩
      · next hsmall => exact .given hfind (.int hsmall)
    · next hnull hfloat hint =>
      refine .inl ⟨trivial, fun ⟨t, ht⟩ => ?_⟩
      cases ht.of_some hfind with
      | null => exact hnull rfl
      | float x => exact hfloat x rfl
      | int _ => exact hint _ rfl

end Parts

section Plugins

def Filled (vs : List Value) (ss : List String) : Prop :=
  vs = ss.map .str ∧ ∀ s ∈ ss, ¬ Text.allBlank s.toList

theorem Filled.of_cons {v : Value} {vs : List Value} {ss : List String} (h : Filled (v :: vs) ss) :
    ∃ s ss', v = .str s ∧ ¬ Text.allBlank s.toList ∧ Filled vs ss' := by
  obtain ⟨heq, hss⟩ := h
  cases ss with
  | nil => cases heq
  | cons s ss =>
    obtain ⟨rfl, rfl⟩ := List.cons.inj heq
    obtain ⟨hs, hss⟩ := List.forall_mem_cons.mp hss
    exact ⟨s, ss, rfl, hs, rfl, hss⟩

theorem Filled.cons {s : String} {vs : List Value} {ss : List String} (hs : ¬ Text.allBlank s.toList)
    (h : Filled vs ss) : Filled (.str s :: vs) (s :: ss) := by
  obtain ⟨rfl, hss⟩ := h
  exact ⟨rfl, List.forall_mem_cons.mpr ⟨hs, hss⟩⟩

theorem gives_go (index : Nat) (found : List String) (vs : List Value) :
    Gives (Refuses (∃ ss, Filled vs ss))
      (fun ps => ∃ ss, Filled vs ss ∧
        ps = found ++ ((ss.map Text.trimmed).filter (· ∉ found)).eraseDups)
      (readPlugins.go index found vs) := by
  induction vs generalizing index found with
  | nil => exact ⟨[], ⟨rfl, by simp⟩, by simp⟩
  | cons v vs ih =>
    rw [readPlugins.go.eq_def]
    split
    · next heq => cases heq
    · next s vs' heq =>
      obtain ⟨rfl, rfl⟩ := List.cons.inj heq
      simp only [Text.isEmpty_trimmed]
      split
      · next hblank =>
        refine ⟨trivial, fun ⟨ss, hss⟩ => ?_⟩
        obtain ⟨s', ss', hs', hfilled, -⟩ := hss.of_cons
        obtain rfl := Value.str.inj hs'
        exact hfilled hblank
      · next hblank =>
        refine (refusing (ih _ _) ?_).imp (fun _ => id) ?_
        · rintro ⟨ss, hss⟩
          obtain ⟨_, ss', -, -, hss'⟩ := hss.of_cons
          exact ⟨ss', hss'⟩
        rintro ps ⟨ss, hss, rfl⟩
        refine ⟨s :: ss, hss.cons hblank, ?_⟩
        by_cases hmem : Text.trimmed s ∈ found
        · simp [hmem]
        · have hrest : ((ss.map Text.trimmed).filter (· ∉ found)).filter (fun n => !n == Text.trimmed s) =
              (ss.map Text.trimmed).filter (· ∉ found ++ [Text.trimmed s]) := by
            rw [List.filter_filter]
            refine List.filter_congr fun n _ => ?_
            simp [not_or, Bool.and_comm, beq_eq_decide]
          rw [List.map_cons, List.filter_cons_of_pos (by simpa using hmem), List.eraseDups_cons, hrest,
            if_neg hmem, List.append_assoc, List.singleton_append]
    · next hother heq =>
      obtain ⟨rfl, rfl⟩ := List.cons.inj heq
      refine ⟨trivial, fun ⟨ss, hss⟩ => ?_⟩
      obtain ⟨s, _, rfl, -⟩ := hss.of_cons
      exact hother s rfl

theorem gives_readPlugins (es : Fields) :
    Gives (Refuses (∃ ps, At es "plugins" PluginsOf builtinPlugins ps))
      (At es "plugins" PluginsOf builtinPlugins) (readPlugins (Value.find? es "plugins")) := by
  rw [readPlugins.eq_def]
  split
  · next hnone => exact .absent hnone
  · next vs hsome =>
    refine (refusing (gives_go 0 [] vs) ?_).imp (fun _ => id) ?_
    · rintro ⟨ps, hps⟩
      cases hps.of_some hsome with
      | list hss => exact ⟨_, rfl, hss⟩
    · rintro ps ⟨ss, ⟨rfl, hss⟩, rfl⟩
      simpa using At.given hsome (.list hss)
  · next v hother hsome =>
    refine ⟨trivial, fun ⟨ps, hps⟩ => ?_⟩
    cases hps.of_some hsome with
    | list _ => exact hother _ rfl

theorem sound_plugins {es : Fields} {ps : List String} (h : At es "plugins" PluginsOf builtinPlugins ps) :
    ps.Nodup ∧ ∀ p ∈ ps, ¬ Text.allBlank p.toList ∧ Text.trimmed p = p := by
  cases h with
  | absent _ => decide
  | given _ hps =>
    cases hps with
    | list hss =>
      refine ⟨Text.nodup_eraseDups _, fun p hp => ?_⟩
      obtain ⟨s, hs, rfl⟩ := List.mem_map.mp (List.mem_eraseDups.mp hp)
      rw [← Text.isEmpty_trimmed, Text.trimmed_trimmed, Text.isEmpty_trimmed]
      exact ⟨hss s hs, rfl⟩

end Plugins

section Values

/--
A time to wait that is too large for a floating-point number, where nothing that is read before it is wrong.
-/
inductive Overflows (es : Fields) : Prop where
  | mk {c : Config} {loader : Fields} {n : Int} (hleads : Leads es c) (hversion : c.version = 1)
      (hcomponent : c.component.Sound) (hloader : Value.find? es "loader" = some (.map loader))
      (htimeout : Value.find? loader "timeout_seconds" = some (.int n))
      (hlarge : (Binary64.ofInt n).isInfinite) : Overflows es

def lead (es : Fields) : Result Config := do
  let version ← integer es "version"
  if version ≠ 1 then refuse (.version version)
  else do
    let component ← readComponent (← object (.map es) "component")
    let logLevel ← text es "log_level" "INFO"
    let debug ← truth es "debug" false
    let directories ← readDirectories (← object (.map es) "paths")
    return { version, logLevel, debug, directories, component }

variable {es : Fields}

theorem ofValue_map (es : Fields) : ofValue (.map es) = (do
    let c ← lead es
    let timeout ← readTimeout (← object (.map es) "loader")
    let plugins ← readPlugins (Value.find? es "plugins")
    let executerOptions ← object (.map es) "executer_options"
    return { c with timeout, plugins, executerOptions }) := by
  simp only [ofValue, lead, bind_assoc]
  refine bind_congr fun version => ?_
  split
  · rfl
  · simp only [bind_assoc, pure_bind]

theorem gives_lead (es : Fields) :
    Gives (Refuses (∃ c, Leads es c ∧ c.version = 1 ∧ c.component.Sound))
      (fun c => Leads es c ∧ c.version = 1 ∧ c.component.Sound) (lead es) := by
  rw [lead]
  refine (refusing (gives_integer es "version") fun ⟨c, hc⟩ => ⟨_, hc.1.version⟩).bind
    fun version _ hversion => ?_
  split
  · next hother =>
    refine ⟨trivial, fun ⟨c, hc, hone, _⟩ => hother ?_⟩
    rw [← hone]
    exact Value.int.inj (Option.some.inj (hversion.symm.trans hc.version))
  next hone =>
  obtain rfl := not_not.mp hone
  refine (describing (Q := fun fs c => ComponentOf fs c.component) (gives_object es "component")
    (fun _ _ => At.entries_unique) fun c hc => hc.1.component).bind fun fs _ hfs => ?_
  refine (refusing (gives_readComponent fs) fun ⟨c, hc⟩ => ⟨_, hfs.2 c hc, hc.2.2⟩).bind
    fun component _ hcomponent => ?_
  refine (refusing (gives_text es "log_level" rfl) fun ⟨c, hc⟩ => ⟨_, hc.1.logLevel⟩).bind
    fun logLevel _ hlogLevel => ?_
  refine (refusing (gives_truth es "debug" false) fun ⟨c, hc⟩ => ⟨_, hc.1.debug⟩).bind
    fun debug _ hdebug => ?_
  refine (describing (Q := fun fs c => DirectoriesOf fs c.directories) (gives_object es "paths")
    (fun _ _ => At.entries_unique) fun c hc => hc.1.directories).bind fun paths _ hpaths => ?_
  refine (refusing (gives_readDirectories paths) fun ⟨c, hc⟩ => ⟨_, hpaths.2 c hc⟩).bind
    fun directories _ hdirectories => ?_
  exact ⟨{
    version := hversion
    component := ⟨fs, hfs.1, hcomponent.1⟩
    logLevel := hlogLevel
    debug := hdebug
    directories := ⟨paths, hpaths.1, hdirectories⟩ }, rfl, hcomponent.2⟩

/--
What is read is what entries describe. They are refused only if that is nothing that can be used, or the time to
wait is too large.
-/
theorem gives_ofValue (es : Fields) :
    Gives (fun e => Refuses (∃ c, Describes es c ∧ c.Sound) e ∨ e = .timeoutTooLarge ∧ Overflows es)
      (fun c => Describes es c ∧ c.Sound) (ofValue (.map es)) := by
  rw [ofValue_map]
  refine (refusing (gives_lead es) ?_).orFailed.bind fun c _ hc => ?_
  · rintro ⟨c, hc, hsound⟩
    exact ⟨c, hc.toLeads, hsound.version, hsound.component⟩
  obtain ⟨hleads, hversion, hcomponent⟩ := hc
  refine (describing (Q := fun fs c => At fs "timeout_seconds" TimeoutOf none c.timeout)
    (gives_object es "loader") (fun _ _ => At.entries_unique) fun c hc => hc.1.timeout).orFailed.bind
    fun loader _ hloader => ?_
  refine ((gives_readTimeout loader).imp ?_ fun _ => id).bind fun timeout _ htimeout => ?_
  · rintro e (⟨htold, hnone⟩ | ⟨rfl, n, hn, hlarge⟩)
    · exact .inl ⟨htold, fun ⟨c, hc⟩ => hnone ⟨_, hloader.2 c hc⟩⟩
    -- A time is only found in a loader that is there.
    · cases hloader.1 with
      | absent _ => cases hn
      | given hgiven hentries =>
        cases hentries with
        | null => cases hn
        | map fs => exact .inr ⟨rfl, .mk hleads hversion hcomponent hgiven hn hlarge⟩
  refine (refusing (gives_readPlugins es) fun ⟨c, hc⟩ => ⟨_, hc.1.plugins⟩).orFailed.bind
    fun plugins _ hplugins => ?_
  refine (refusing (gives_object es "executer_options") fun ⟨c, hc⟩ => ⟨_, hc.1.executerOptions⟩).orFailed.bind
    fun options _ hoptions => ?_
  have hsound := sound_plugins hplugins
  exact ⟨{
    version := hleads.version
    component := hleads.component
    logLevel := hleads.logLevel
    debug := hleads.debug
    directories := hleads.directories
    timeout := ⟨loader, hloader.1, htimeout⟩
    plugins := hplugins
    executerOptions := hoptions }, hversion, hcomponent, hsound.1, hsound.2⟩

theorem sound_of_ofValue {v : Value} {c : Config} (h : ofValue v = .ok c) : c.Sound := by
  cases v with
  | map es =>
    have hgives := gives_ofValue es
    rw [h] at hgives
    exact hgives.2
  | _ => cases h

theorem not_overflows_of_describes {c : Config} (h : Describes es c) : ¬ Overflows es := by
  rintro ⟨-, -, -, hloader, htimeout, hlarge⟩
  obtain ⟨fs, hfs, ht⟩ := h.timeout
  obtain rfl := hfs.entries_unique (.given hloader (.map _))
  generalize c.timeout = t at ht
  cases ht.of_some htimeout with
  | int hsmall => exact hsmall hlarge

theorem ofValue_eq_ok_iff {c : Config} : ofValue (.map es) = .ok c ↔ Describes es c ∧ c.Sound := by
  have hgives := gives_ofValue es
  cases hread : ofValue (.map es) with
  | ok c' =>
    rw [hread] at hgives
    exact ⟨fun h => Except.ok.inj h ▸ hgives, fun h => congrArg _ (hgives.1.unique h.1)⟩
  | error e =>
    rw [hread] at hgives
    refine ⟨by rintro ⟨⟩, fun h => ?_⟩
    rcases hgives with hrefuses | ⟨-, hlarge⟩
    · exact absurd ⟨c, h⟩ hrefuses.2
    · exact absurd hlarge (not_overflows_of_describes h.1)

end Values

end Polyglot.Config
