/-!
The keys whose values are known, each with the values to offer. A key that several offers name is
answered by the first.
-/
namespace SkinLint.Completion

inductive Values where
  | plain (labels : List String)
  /-- Each with what it does. -/
  | documented (entries : List (String × String))
  /-- From `first` in steps of `step`, `count` of them. -/
  | numeric (first : Int) (step : Nat) (count : Nat)

structure Offer where
  keys : List String
  values : Values

def meterTypes : List String :=
  ["Shape", "Image", "String", "Bar", "Bitmap", "Button", "Histogram", "Line", "Rotator",
   "Roundline"]

def measureTypes : List String :=
  ["Calc", "Plugin", "Time", "CPU", "FreeDiskSpace", "Loop", "MediaKey", "Memory", "Net",
   "NowPlaying", "Process", "RecycleManager", "Registry", "Script", "String", "SysInfo", "UpTime",
   "WebParser", "WifiStatus"]

def pluginTypes : List String :=
  ["ActionTimer", "AdvancedCPU", "AudioLevel", "CoreTemp", "FileView", "FolderInfo", "InputText",
   "iTunesPlugin", "MediaKey", "NowPlaying", "PerfMon", "PingPlugin", "PowerPlugin", "QuotePlugin",
   "RecycleManager", "ResMon", "RunCommand", "SpeedFanPlugin", "SysInfo", "UsageMonitor",
   "WebParser", "WiFiStatus", "Win7AudioPlugin", "WindowMessagePlugin"]

def stringAlignments : List String :=
  ["Left", "Center", "Right", "LeftTop", "CenterTop", "RightTop", "LeftCenter", "CenterCenter",
   "RightCenter", "LeftBottom", "CenterBottom", "RightBottom"]

def switchKeys : List String :=
  ["DynamicVariables", "AlwaysOnTop", "AutoSelectScreen", "MouseActionCursor",
   "PreserveAspectRatio", "Hidden", "AntiAlias", "GreyScale", "AutoScale", "UseExifOrientation",
   "Tile", "HorizontalLines", "Solid", "Percentual", "Draggable", "SnapEdges", "StartHidden",
   "KeepOnScreen", "DynamicWindowSize", "AccurateText", "ToolTipHidden", "Blur", "RegExpSubstitute",
   "DefaultClickThrough", "DefaultKeepOnScreen", "DefaultAutoSelectScreen", "DefaultSavePosition",
   "DefaultDraggable", "DefaultSnapEdges", "DefaultStartHidden"]

def colourKeys : List String :=
  ["FontColor", "FontEffectColor", "SolidColor", "SolidColor2", "ImageTint", "PrimaryImageTint",
   "SecondaryImageTint", "BothImageTint", "PrimaryColor", "SecondaryColor", "BothColor",
   "LineColor", "HorizontalLineColor", "SelectedColor"]

def colourPresets : List (String × String) :=
  [("255,255,255,255", "White color with full opacity."),
   ("0,0,0,255", "Black color with full opacity."),
   ("255,0,0,255", "Red color with full opacity."),
   ("0,255,0,255", "Green color with full opacity."),
   ("0,0,255,255", "Blue color with full opacity."),
   ("128,128,128,255", "Gray color with full opacity."),
   ("255,255,0,255", "Yellow color with full opacity.")]

def imageCrop : List (String × String) :=
  [("TopLeft,TopRight,BottomRight,BottomLeft,Center",
    "Crop origins. Example: ImageCrop=-50,-30,100,60,5")]

def transformStroke : List (String × String) :=
  [("Normal",
    "The line width is affected by scale or skew transforms from TransformationMatrix."),
   ("Fixed", "The line width stays at LineWidth regardless of TransformationMatrix.")]

def hoverActions : List (String × String) :=
  [("0", "Do nothing (default). No action is taken."),
   ("1",
    "Hide. The skin fades between AlphaValue and hidden, or between fully visible and hidden when no AlphaValue is set."),
   ("2", "Fade in. The skin fades between AlphaValue and fully visible."),
   ("3", "Fade out. The skin fades between AlphaValue and hidden.")]

def catalogue : List Offer :=
  [⟨["Meter"], .plain meterTypes⟩,
   ⟨["Measure"], .plain measureTypes⟩,
   ⟨["Plugin"], .plain pluginTypes⟩,
   ⟨["StringAlign"], .plain stringAlignments⟩,
   ⟨["BitmapAlign"], .plain ["Center", "Left", "Right"]⟩,
   ⟨["GraphStart"], .plain ["Left", "Right"]⟩,
   ⟨["ImageCrop", "PrimaryImageCrop", "SecondaryImageCrop", "BothImageCrop"],
    .documented imageCrop⟩,
   ⟨switchKeys, .plain ["0", "1"]⟩,
   ⟨["BarOrientation", "GraphOrientation"], .plain ["Horizontal", "Vertical"]⟩,
   ⟨["ImageFlip", "PrimaryImageFlip", "SecondaryImageFlip", "BothImageFlip"],
    .plain ["None", "Horizontal", "Vertical", "Both"]⟩,
   ⟨colourKeys, .documented colourPresets⟩,
   ⟨["OnHover", "DefaultOnHover"], .documented hoverActions⟩,
   ⟨["StringCase"], .plain ["None", "Upper", "Lower", "Proper"]⟩,
   ⟨["StringStyle"], .plain ["Normal", "Bold", "Italic", "BoldItalic"]⟩,
   ⟨["StringEffect"], .plain ["None", "Shadow", "Border"]⟩,
   ⟨["FontFace"],
    .plain ["Arial", "Calibri", "Consolas", "Georgia", "Helvetica", "Impact", "Roboto", "Segoe UI",
     "Tahoma", "Verdana"]⟩,
   ⟨["MouseActionCursorName"],
    .plain ["HAND", "TEXT", "HELP", "BUSY", "CROSS", "PEN", "NO", "SIZE_ALL", "SIZE_NESW",
     "SIZE_NS", "SIZE_NWSE", "SIZE_WE", "UPARROW", "WAIT"]⟩,
   ⟨["TransformStroke"], .documented transformStroke⟩,
   ⟨["FontWeight"], .numeric 100 100 9⟩,
   ⟨["Update", "UpdateDivider", "DefaultUpdateDivider"], .numeric 0 50 21⟩,
   ⟨["ImageAlpha", "PrimaryImageAlpha", "SecondaryImageAlpha", "BothImageAlpha", "AlphaValue",
     "DefaultAlphaValue"], .numeric 0 50 6⟩,
   ⟨["FadeDuration", "DefaultFadeDuration"], .numeric 250 50 46⟩,
   ⟨["BitmapSeparation"], .numeric (-2) 1 5⟩,
   ⟨["BitmapFrames"], .numeric 0 1 11⟩,
   ⟨["ClipString"], .numeric 0 1 3⟩,
   ⟨["NumOfDecimals", "Scale"], .numeric 1 1 3⟩,
   ⟨["LoadOrder"], .numeric (-1) 1 4⟩,
   ⟨["DefaultAlwaysOnTop"], .numeric (-2) 1 5⟩,
   ⟨["GradientAngle"], .numeric 0 90 5⟩]

end SkinLint.Completion
