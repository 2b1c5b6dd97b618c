import WindowRules.Text.Lowercase

/-!
# Keys of items

Older rules run words together (`initialClass`, `bordersize`) where newer ones divide them (`initial_class`,
`border_size`). Selectors and flags have tables of their own, since one word can mean different things in the two
places. A selector key is looked up as it stands (`selectorKey`), a flag key in its lowercase form (`flagKey`). A flag
without a value gets the default of its key (`defaultValue`).
-/

namespace WindowRules
namespace Keys

/-- What a selector key stands for: one key, or two keys whose values are given together. -/
inductive SelectorKey where
  /-- One key for the whole value. -/
  | single (key : Text)
  /-- A key for each of the first two words of the value. -/
  | pair (first second : Text)
deriving DecidableEq, Repr

/-- The older selector keys with their newer forms. -/
def selectorTable : List (Text × SelectorKey) :=
  [("initialClass".toList, .single "initial_class".toList),
    ("initialTitle".toList, .single "initial_title".toList),
    ("floating".toList, .single "float".toList),
    ("pinned".toList, .single "pin".toList),
    ("fullscreenstate".toList, .pair "fullscreen_state_internal".toList "fullscreen_state_client".toList),
    ("onworkspace".toList, .single "workspace".toList),
    ("xdgTag".toList, .single "xdg_tag".toList),
    ("noinitialfocus".toList, .single "no_initial_focus".toList)]

/-- The older flag keys with their newer forms. -/
def flagTable : List (Text × Text) :=
  [("bordersize", "border_size"), ("bordercolor", "border_color"), ("roundingpower", "rounding_power"),
    ("noborder", "border_size"), ("noanim", "no_anim"), ("noblur", "no_blur"), ("nodim", "no_dim"),
    ("noshadow", "no_shadow"), ("norounding", "no_rounding"), ("nofocus", "no_focus"),
    ("nofollowmouse", "no_follow_mouse"), ("allowsinput", "allows_input"), ("focusonactivate", "focus_on_activate"),
    ("fullscreenstate", "fullscreen_state"), ("maxsize", "max_size"), ("minsize", "min_size"),
    ("nomaxsize", "no_max_size"), ("keepaspectratio", "keep_aspect_ratio"), ("idleinhibit", "idle_inhibit"),
    ("persistentsize", "persistent_size"), ("stayfocused", "stay_focused"), ("dimaround", "dim_around"),
    ("noclosefor", "no_close_for"), ("suppressevent", "suppress_event"), ("forcergbx", "force_rgbx"),
    ("syncfullscreen", "sync_fullscreen"), ("renderunfocused", "render_unfocused"), ("scrollmouse", "scroll_mouse"),
    ("scrolltouchpad", "scroll_touchpad"), ("noshortcutsinhibit", "no_shortcuts_inhibit"),
    ("noscreenshare", "no_screen_share"), ("novrr", "no_vrr"), ("noinitialfocus", "no_initial_focus"),
    ("ignorealpha", "ignore_alpha"), ("ignorezero", "ignore_alpha"), ("blurpopups", "blur_popups"),
    ("abovelock", "above_lock")].map fun (older, newer) => (older.toList, newer.toList)

/-- The values of the flags whose default is listed. -/
def defaultTable : List (Text × Text) :=
  [("border_size", "0"), ("float", "on"), ("xwayland", "0"), ("fullscreen", "on"), ("pin", "on"), ("focus", "0"),
    ("group", "0"), ("modal", "0"), ("no_anim", "on"), ("ignore_alpha", "0"), ("fullscreen_state_internal", "0"),
    ("fullscreen_state_client", "0")].map fun (key, value) => (key.toList, value.toList)

/-- The value of a flag whose default is not listed, and of a layer's namespace. -/
def enabled : Text := "on".toList

/-- The value of either half of a pair that the source leaves out. -/
def missingHalf : Text := "0".toList

/-- What a selector key stands for; a key that is not in the table stands for itself. -/
def selectorKey (key : Text) : SelectorKey := (selectorTable.lookup key).getD (.single key)

/-- The newer form of a flag key, in lowercase; a key that is not in the table keeps its words. -/
def flagKey (key : Text) : Text :=
  let lowered := Text.lower key
  (flagTable.lookup lowered).getD lowered

/-- The value of a flag that is written without one. -/
def defaultValue (key : Text) : Text := (defaultTable.lookup key).getD enabled

/-- No newer form of a flag key is an older one. -/
theorem flagTable_newer : flagTable.all (fun (_, newer) => (flagTable.lookup newer).isNone) = true := by
  unfold flagTable
  simp only [List.map_cons, List.map_nil]
  -- a literal takes long to be read as a list of characters
  repeat rw [String.toList_ofList]
  decide +kernel

end Keys
end WindowRules
