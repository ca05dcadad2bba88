import EntityStore.Proofs.Json.Readers

/-! Settings survive their documents, with any library that keeps to what is documented of it. -/

namespace EntityStore

theorem ite_mem_cons {α : Type} (field name : String) (names : List String) (x y : α) :
    (if field ∈ name :: names then x else y) =
      if field ∈ names then x else if field ∈ [name] then x else y := by
  by_cases h : field ∈ names <;> simp [h]

namespace RegistrySettings

def Fits (s : RegistrySettings) : Prop := (∀ n ∈ s.idLimit, n < 1 <<< 64) ∧ s.reserve < 1 <<< 64

def fill (s : RegistrySettings) (names : List String) (a : RegistrySettings) : RegistrySettings where
  idLimit := if "id_limit" ∈ names then s.idLimit else a.idLimit
  reserve := if "reserve" ∈ names then s.reserve else a.reserve
  prefill := if "prefill" ∈ names then s.prefill else a.prefill

theorem fills (s : RegistrySettings) : declaration.Fills s s.fill where
  nil a := by simp [fill]
  cons name names a := by
    simp only [fill]
    congr 1 <;> exact ite_mem_cons _ name names _ _
  field a hf := by
    simp only [declaration, List.mem_cons, List.not_mem_nil, or_false] at hf
    rcases hf with rfl | rfl | rfl <;> simp [fill]
  other a hname := by
    simp [Json.Declaration.names, declaration] at hname
    simp [fill, Ne.symm hname.1, Ne.symm hname.2.1, Ne.symm hname.2.2]

theorem Fits.declared {s : RegistrySettings} (h : s.Fits) : declaration.Fits s := by
  intro f hf
  simp only [declaration, List.mem_cons, List.not_mem_nil, or_false] at hf
  rcases hf with rfl | rfl | rfl
  · exact h.1
  · exact h.2
  · trivial

theorem documented {lib : Json.Library} (h : lib.Lawful) {s : RegistrySettings} (hs : s.Fits) :
    Json.Documented (ofJson lib) default s (lib.write declaration s) (declaration.cells s) s.fill := by
  apply h.documented s.fills hs.declared
  · simp [fill, Json.Declaration.names, declaration]
  · simp [Json.Declaration.names, declaration, Json.Plain]

end RegistrySettings

namespace StorageSettings

def Fits (s : StorageSettings) : Prop := (∀ n ∈ s.limit, n < 1 <<< 64) ∧ s.reserve < 1 <<< 64

def fill (s : StorageSettings) (names : List String) (a : StorageSettings) : StorageSettings where
  limit := if "limit" ∈ names then s.limit else a.limit
  reserve := if "reserve" ∈ names then s.reserve else a.reserve

theorem fills (s : StorageSettings) : declaration.Fills s s.fill where
  nil a := by simp [fill]
  cons name names a := by
    simp only [fill]
    congr 1 <;> exact ite_mem_cons _ name names _ _
  field a hf := by
    simp only [declaration, List.mem_cons, List.not_mem_nil, or_false] at hf
    rcases hf with rfl | rfl <;> simp [fill]
  other a hname := by
    simp [Json.Declaration.names, declaration] at hname
    simp [fill, Ne.symm hname.1, Ne.symm hname.2]

theorem Fits.declared {s : StorageSettings} (h : s.Fits) : declaration.Fits s := by
  intro f hf
  simp only [declaration, List.mem_cons, List.not_mem_nil, or_false] at hf
  rcases hf with rfl | rfl
  · exact h.1
  · exact h.2

theorem documented {lib : Json.Library} (h : lib.Lawful) {s : StorageSettings} (hs : s.Fits) :
    Json.Documented (ofJson lib) default s (lib.write declaration s) (declaration.cells s) s.fill := by
  apply h.documented s.fills hs.declared
  · simp [fill, Json.Declaration.names, declaration]
  · simp [Json.Declaration.names, declaration, Json.Plain]

end StorageSettings

/-- Settings are read back as they were written. Documents of another shape give the same for the same fields, and none
for a field that is named twice or for a value that has no field. -/
theorem settings_documented {lib : Json.Library} (h : lib.Lawful) :
    (∀ s : RegistrySettings, s.Fits → Json.Documented (RegistrySettings.ofJson lib) .default s
      (lib.write RegistrySettings.declaration s) (RegistrySettings.declaration.cells s) s.fill) ∧
    ∀ s : StorageSettings, s.Fits → Json.Documented (StorageSettings.ofJson lib) .default s
      (lib.write StorageSettings.declaration s) (StorageSettings.declaration.cells s) s.fill :=
  ⟨fun _ hs => RegistrySettings.documented h hs, fun _ hs => StorageSettings.documented h hs⟩

theorem settings_documented_note :
    RegistrySettings.ofJson Json.library "\x7b\"note\":[null,\x7b\x7d],\"reserve\":5\x7d" = .ok ⟨none, 5, false⟩ ∧
      StorageSettings.ofJson Json.library "[null,5]" = .ok ⟨none, 5⟩ := by
  have hfive : toString 5 = "5" := by decide
  obtain ⟨hregistry, hstorage⟩ := settings_documented Json.lawful_library
  let bare (core : List Char) : Json.Padded := ⟨.none, core, .none⟩
  constructor
  · let note : Json.Entry := .plain ("note", "[null,\x7b\x7d]") (by simp [Json.Plain])
    let reserve : Json.Entry := .plain ("reserve", "5") (by simp [Json.Plain])
    let d : Json.ObjectDocument := ⟨.none, .none, [note, reserve], .none⟩
    let s : RegistrySettings := ⟨none, 5, true⟩
    have hcells : RegistrySettings.declaration.cells s =
        [("id_limit", "null"), ("reserve", "5"), ("prefill", "true")] := by
      rw [← hfive]
      rfl
    have hempty : Json.Value (Json.objectText .none []) := .object .none (by simp) (by simp)
    have hnote : Json.Value (Json.listText .none [bare "null".toList, bare (Json.objectText .none [])]) := by
      apply Json.Value.list
      simpa [bare] using And.intro Json.Value.null hempty
    have htext : d.text = "\x7b\"note\":[null,\x7b\x7d],\"reserve\":5\x7d" := by
      apply String.toList_inj.1
      rw [Json.ObjectDocument.text, String.toList_ofList]
      rfl
    have hobject : RegistrySettings.ofJson Json.library d.text = .ok (s.fill d.keys .default) := by
      apply (hregistry s ⟨by simp [s], by decide⟩).object d
      · rw [List.forall_mem_cons, List.forall_mem_singleton]
        exact ⟨fun hkey => absurd hkey (by decide), fun _ => hcells ▸ .tail _ (.head _)⟩
      · rw [List.forall_mem_cons, List.forall_mem_singleton]
        exact ⟨fun _ => hnote, fun hkey => absurd (.tail _ (.head _)) hkey⟩
      · decide
    rw [← htext, hobject]
    rfl
  · let d : Json.ListDocument := ⟨.none, .none, [bare "null".toList, bare "5".toList], .none⟩
    let s : StorageSettings := ⟨none, 5⟩
    have htext : d.text = "[null,5]" := by
      apply String.toList_inj.1
      rw [Json.ListDocument.text, String.toList_ofList]
      rfl
    have hlist : StorageSettings.ofJson Json.library d.text =
        .ok (s.fill (((StorageSettings.declaration.cells s).take 2).map Prod.fst) .default) := by
      apply (hstorage s ⟨by simp [s], by decide⟩).list d 2
      have hcells : StorageSettings.declaration.cells s = [("limit", "null"), ("reserve", "5")] := by
        rw [← hfive]
        rfl
      rw [hcells]
      rfl
    rw [← htext, hlist]
    rfl

end EntityStore
