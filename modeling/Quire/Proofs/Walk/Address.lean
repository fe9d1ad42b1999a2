import Quire.Node.Parse
import Quire.Proofs.Flavor.Attribute
import Quire.Proofs.Walk.Account
import Quire.Proofs.Walk.Course

/-! The addresses of links in HTML. An address is written as it stands in the source, between single
quotes. Main statement: `href_of_link`, a reader finds it again exactly when it holds no such quote. -/
namespace Quire.Walk

variable {ctx : Context} {node : Node} {rest : List Node} {s t : State} {address : String}

inductive LinksTo : Node → String → Prop
  | url {node : Node} {arg : Arg} (role : roleOf? node = some .url)
      (only : node.onlyArg = .ok arg) : LinksTo node arg.text
  | href {node : Node} {address : String} (role : roleOf? node = some .href)
      (first : firstOfTwo node = .ok address) : LinksTo node address

theorem out_prefix_openParagraph (flavor : Flavor) (s : State) :
    s.out.toList <+: (s.openParagraph flavor).out.toList := by
  unfold State.openParagraph State.layTable
  split
  · split
    · exact List.prefix_rfl
    · exact Text.toList_prefix_append s.out _
  split
  · exact Text.toList_prefix_append s.out _
  · exact List.prefix_rfl

theorem written_of_link (links : LinksTo node address)
    (ran : meet ctx node rest s = (.ok (), t)) :
    ∃ before shown, s.out.toList <+: before.toList ∧
      t.out = before ++ ctx.flavor.link address shown := by
  cases links with
  | url role only =>
    rw [meet, visit_of_role role] at ran
    obtain ⟨arg, _, got, ran₁⟩ := bind_eq_ok ran
    obtain ⟨found, rfl⟩ := rendering_eq_ok got
    obtain rfl := Except.ok.inj (only.symm.trans found)
    obtain ⟨⟨⟩, _, ⟨⟩, ⟨⟩⟩ := bind_eq_ok ran₁
    exact ⟨_, _, out_prefix_openParagraph ctx.flavor _, rfl⟩
  | href role first =>
    rw [meet, visit_of_role role] at ran
    obtain ⟨found, _, got, ran₁⟩ := bind_eq_ok ran
    obtain ⟨first', rfl⟩ := rendering_eq_ok got
    obtain rfl := Except.ok.inj (first.symm.trans first')
    obtain ⟨shown, _, taken, ran₂⟩ := bind_eq_ok ran₁
    obtain ⟨inner, -, rfl, rfl⟩ := asText_eq_ok taken
    obtain ⟨⟨⟩, _, ⟨⟩, ⟨⟩⟩ := bind_eq_ok ran₂
    exact ⟨_, _, out_prefix_openParagraph ctx.flavor (State.merge _ inner), rfl⟩

/-- A link that is written in HTML is an anchor. Its address is read up to its first single quote, so
an address that decoding leaves alone is read back exactly when it holds no single quote. -/
theorem href_of_link (decoding : Html.Decoding) (html : ctx.target = .html)
    (links : LinksTo node address) (ran : meet ctx node rest s = (.ok (), t)) :
    ∃ before shown found, s.out.toList <+: before.toList ∧
      t.out = before ++ Html.link address shown ∧
      Html.firstAttribute? decoding (Html.link address shown).toList = some found ∧
      found.element = "a".toList ∧ found.name = "href".toList ∧
      found.value = decoding.run (address.toList.takeWhile (· != '\'')) ∧
      ('\'' ∉ address.toList → found.behind = (">" ++ shown ++ "</a>").toList) ∧
      (decoding.run address.toList = address.toList →
        (found.value = address.toList ↔ '\'' ∉ address.toList)) := by
  have link_eq (shown : String) : ctx.flavor.link address shown = Html.link address shown := by
    rw [Context.flavor, html]
    rfl
  obtain ⟨before, shown, kept, written⟩ := written_of_link links ran
  obtain ⟨behind, read, ends⟩ := Html.firstAttribute?_link decoding address shown
  rw [link_eq] at written
  exact ⟨before, shown, _, kept, written, read, rfl, rfl, rfl, ends,
    Html.run_takeWhile_eq_iff decoding⟩

/-- An ampersand that starts no reference, and markup in the text of the link. -/
theorem href_of_link_with_ampersand :
    let ctx : Context := ⟨.empty, .empty, [], "", ⟨"", "", 0, 0, .offline⟩, .html, 1⟩
    let address := "http://a/?x=1&y=2"
    let shown : Node := .command "emph" [.mk .required [.text "b"] "b"]
    let node : Node := .command "href"
      [.mk .required [.text address] address, .mk .required [shown] "\\emph\x7bb\x7d"]
    let s := State.start ctx .empty
    let t := (meet ctx node [] s).2
    ctx.target = .html ∧ LinksTo node address ∧ meet ctx node [] s = (.ok (), t) ∧
      Html.Decoding.named.run address.toList = address.toList ∧
      (∃ before shown found, t.out = before ++ Html.link address shown ∧
        Html.firstAttribute? .named (Html.link address shown).toList = some found ∧
        found.value = address.toList ∧ found.behind = (">" ++ shown ++ "</a>").toList) ∧
      t.out = "<a href='http://a/?x=1&y=2'><em>b</em></a>" := by
  intro ctx address shown node s t
  have first : firstOfTwo node = .ok address :=
    congrArg Except.ok (by decide +kernel : Text.trim address = address)
  have links : LinksTo node address := .href (by decide +kernel) first
  have ran : meet ctx node [] s = (.ok (), t) := Prod.ext (by decide +kernel) rfl
  have settled : Html.Decoding.named.run address.toList = address.toList := by decide
  have quoteless : '\'' ∉ address.toList := by decide
  refine ⟨rfl, links, ran, settled, ?_, by decide +kernel⟩
  obtain ⟨before, shown, found, -, written, read, -, -, -, ends, exact_⟩ :=
    href_of_link .named rfl links ran
  exact ⟨before, shown, found, written, read, (exact_ settled).mpr quoteless, ends quoteless⟩

/-- The quote of an address ends its attribute, and a reader finds half of the address. -/
theorem address_cut_at_quote :
    let ctx : Context := ⟨.empty, .empty, [], "", ⟨"", "", 0, 0, .offline⟩, .html, 1⟩
    let address := "http://a/it's"
    let tag := Html.link address "a/it's"
    let body (tex : String) : Option String := (Node.parse tex).toOption.bind fun nodes =>
      (render ctx .empty nodes).1.toOption.map (·.body)
    body ("\\url\x7b" ++ address ++ "\x7d") = some ("\n<p>" ++ tag ++ "</p>\n") ∧
      Html.firstAttribute? .named tag.toList = some ⟨"a".toList, "href".toList,
        "http://a/it".toList, "s'>a/it's</a>".toList⟩ ∧
      "http://a/it" ≠ address := by
  refine ⟨?_, ?_, ?_⟩ <;> decide +kernel

end Quire.Walk
