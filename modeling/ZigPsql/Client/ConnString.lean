import ZigPsql.Libpq.Conninfo
import ZigPsql.Client.CStrings

/-!
# The connection string that init builds, read by libpq

init writes its parameters without quotes, so that libpq finds them again
exactly when none of them needs any.
-/

namespace Psql
open Effect Effect.Eff Text Zig Libpq

variable {σ : Type}

def connectionSettings (cs : ConnectionParams) : List Setting :=
  [(ascii "dbname", cs.database), (ascii "user", cs.user), (ascii "password", cs.password), (ascii "host", cs.host),
    (ascii "port", portText cs.port)]

/-- A text that sets every keyword to its parameter, and no other keyword. -/
def Configures (cs : ConnectionParams) (t : Bytes) : Prop :=
  ∃ settings, parseConninfo t = some settings ∧
    ∀ keyword, lastValue settings keyword = lastValue (connectionSettings cs) keyword

/-- No parameter is empty, has a blank or a backslash, or starts with a quote. -/
def plainParams (cs : ConnectionParams) : Bool :=
  plainValue cs.database && plainValue cs.user && plainValue cs.password && plainValue cs.host

theorem connectionText_settings (cs : ConnectionParams) : connectionText cs = settingsText (connectionSettings cs) := by
  simp only [connectionText, connectionParts, connectionSettings, settingsText, List.flatten_cons, List.flatten_nil,
    show ascii "dbname=" = ascii "dbname" ++ [61] from rfl, show ascii " user=" = 32 :: (ascii "user" ++ [61]) from rfl,
    show ascii " password=" = 32 :: (ascii "password" ++ [61]) from rfl,
    show ascii " host=" = 32 :: (ascii "host" ++ [61]) from rfl,
    show ascii " port=" = 32 :: (ascii "port" ++ [61]) from rfl,
    List.append_assoc, List.cons_append, List.nil_append, List.append_nil]

theorem connectionSettings_keywords (cs : ConnectionParams) :
    (∀ s ∈ connectionSettings cs, isKeyword s.1 = true) ∧ ((connectionSettings cs).map Prod.fst).Nodup := by
  constructor
  · simp only [connectionSettings, List.forall_mem_cons]
    decide
  · simp only [connectionSettings, List.map_cons, List.map_nil]
    decide

theorem digit_plain {b : Byte} (h : isDigit b = true) : isSpace b = false ∧ b ≠ 92 ∧ b ≠ 39 := by
  simp only [isDigit, isSpace, Bool.and_eq_true, decide_eq_true_eq, Bool.or_eq_false_iff, decide_eq_false_iff_not,
    Bool.and_eq_false_iff] at h ⊢
  grind

theorem portText_plain (port : UInt16) : plainValue (portText port) = true := by
  have hdigits (b : Byte) (hb : b ∈ portText port) := digit_plain (decimal_isDigit port.toNat b hb)
  simp only [plainValue, unescaped, Bool.and_eq_true, decide_eq_true_eq, List.all_eq_true]
  refine ⟨⟨decimal_ne_nil _, fun h => (hdigits 39 (List.mem_of_mem_head? h)).2.2 rfl⟩, fun b hb => ?_⟩
  obtain ⟨hspace, hslash, -⟩ := hdigits b hb
  exact ⟨by rw [hspace]; rfl, bne_iff_ne.mpr hslash⟩

theorem connectionText_configures_iff (cs : ConnectionParams) :
    Configures cs (connectionText cs) ↔ plainParams cs = true := by
  obtain ⟨hkeywords, hdistinct⟩ := connectionSettings_keywords cs
  rw [connectionText_settings]
  constructor
  · intro h
    obtain ⟨settings, hparse, hvalues⟩ := h
    have hsub : connectionSettings cs ⊆ settings := by
      intro s hs
      exact mem_of_lastValue ((hvalues s.1).trans (lastValue_of_mem hdistinct hs))
    have hplain := plain_of_parse_settingsText _ hkeywords hdistinct hparse hsub
    simpa [connectionSettings, plainParams, and_assoc] using hplain
  · intro hplain
    simp only [plainParams, Bool.and_eq_true, and_assoc] at hplain
    obtain ⟨hdatabase, huser, hpassword, hhost⟩ := hplain
    refine ⟨connectionSettings cs, parse_settingsText _ fun s hs => ⟨hkeywords s hs, ?_⟩, fun _ => rfl⟩
    simp only [connectionSettings, List.mem_cons, List.not_mem_nil, or_false] at hs
    rcases hs with rfl | rfl | rfl | rfl | rfl
    · exact hdatabase
    · exact huser
    · exact hpassword
    · exact hhost
    · exact portText_plain cs.port

/-- init's text reads back exactly when its parameters are plain; any port is. While memory lasts one text
is handed over. -/
theorem init_configures_iff (P : Platform) (srv : Server σ) (self : Self) (w : World σ) (cs : ConnectionParams) :
    (plainParams cs = true → ∀ b ∈ (Site.init cs).handed P srv self w, Configures cs b.text) ∧
    (P.Succeeds → (∃ b, (Site.init cs).handed P srv self w = [b]) ∧
      ((∀ b ∈ (Site.init cs).handed P srv self w, Configures cs b.text) ↔ plainParams cs = true)) := by
  rcases Site.handed_eq P srv self w (.init cs) with ⟨hP, hnone⟩ | ⟨b, hb, hone⟩
  · exact ⟨fun _ b hmem => by simp [hnone] at hmem, fun h => absurd h hP⟩
  · have hiff : (∀ b ∈ (Site.init cs).handed P srv self w, Configures cs b.text) ↔ plainParams cs = true := by
      rw [hone, List.forall_mem_singleton, hb]
      exact connectionText_configures_iff cs
    exact ⟨hiff.mpr, fun _ => ⟨⟨b, hone⟩, hiff⟩⟩

theorem init_configures_test :
    ∃ b, (Site.init testConnection).handed Platform.simple scripted testSelf (World.initial ⟨none, true⟩) = [b] ∧
      Configures testConnection b.text := by
  refine ⟨_, rfl, ?_⟩
  exact (init_configures_iff Platform.simple scripted testSelf (World.initial ⟨none, true⟩) testConnection).1
    (by decide) _ (List.mem_singleton.mpr rfl)

/-- The parameters of the tests. -/
def connInfo : ConnectionParams := ⟨[], 5432, [], [], ascii "test"⟩

/-- The empty user takes up the next keyword, and the empty host the port. -/
theorem init_connInfo_swallows : ¬ ∀ b ∈ (Site.init connInfo).handed Platform.simple scripted testSelf
    (World.initial ⟨none, true⟩), Configures connInfo b.text := by
  intro h
  rcases Site.handed_eq Platform.simple scripted testSelf (World.initial ⟨none, true⟩) (.init connInfo) with
    ⟨hP, -⟩ | ⟨b, hb, hone⟩
  · exact hP Platform.simple_succeeds
  obtain ⟨settings, hparse, hvalues⟩ := h b (by simp [hone])
  rw [hb] at hparse
  have hread : parseConninfo (Site.init connInfo).text =
      some [(ascii "dbname", ascii "test"), (ascii "user", ascii "password="), (ascii "host", ascii "port=5432")] := by
    decide +kernel
  cases hparse.symm.trans hread
  exact absurd (hvalues (ascii "password")) (by decide +kernel)

end Psql
