import FlakeWm.Box
import FlakeWm.Schemes.Run
import FlakeWm.Lock.Model
import FlakeWm.Lock.Trees
import FlakeWm.Lock.Announce
import FlakeWm.Lock.Outputs
import FlakeWm.Lock.Protocol
import FlakeWm.Lock.Cover
import FlakeWm.Lock.Held
import FlakeWm.Schemes.Bytes
import FlakeWm.XSettings.Model
import FlakeWm.XSettings.Scan
import FlakeWm.XSettings.Codec
import FlakeWm.XSettings.Patch
import FlakeWm.Schemes.Slots
import FlakeWm.Schemes.Links
import FlakeWm.Placing.Model
import FlakeWm.Workspaces.Manager
import FlakeWm.Workspaces.Membership
import FlakeWm.Workspaces.Model
import FlakeWm.Workspaces.Array
import FlakeWm.Workspaces.Order
import FlakeWm.Workspaces.Mirror
import FlakeWm.Workspaces.Proxies
import FlakeWm.Workspaces.Joining
import FlakeWm.Workspaces.Moving
import FlakeWm.Workspaces.Members
import FlakeWm.Placing.Place
import FlakeWm.Placing.FreeLists
import FlakeWm.Keyboards.Counts
import FlakeWm.Jobs.Model
import FlakeWm.Jobs.History
import FlakeWm.Jobs.Fences
import FlakeWm.LayerShell.Model
import FlakeWm.LayerShell.UsableArea
import FlakeWm.LayerShell.Events
import FlakeWm.Views.Configure
import FlakeWm.Views.Floating
import FlakeWm.Hashing.Model
import FlakeWm.Hashing.Entries
import FlakeWm.Hashing.Rehash
import FlakeWm.Hashing.Refinement
import FlakeWm.Workspaces.Sticky
import FlakeWm.Stacking.Model
import FlakeWm.Stacking.Order
import FlakeWm.Stacking.Runs
import FlakeWm.Damage.Model
import FlakeWm.Damage.Leaves
import FlakeWm.Clipboard.Model
import FlakeWm.Panels.Areas
import FlakeWm.Clipboard.Events
import FlakeWm.Clipboard.Takeover
import FlakeWm.Clipboard.Cache
import FlakeWm.Schemes.SafeLoop
import FlakeWm.Thumbnails.Model
import FlakeWm.Thumbnails.Release
import FlakeWm.Thumbnails.Updates
import FlakeWm.Frames.Model
import FlakeWm.Frames.Current
import FlakeWm.Shortcuts.Model
import FlakeWm.Shortcuts.Truth
import FlakeWm.TilePreview.Model
import FlakeWm.TilePreview.Grid
import FlakeWm.TilePreview.Selection
import FlakeWm.Panels.Providers
import FlakeWm.Panels.Signals
import FlakeWm.Panels.Following
import FlakeWm.Panels.Reserved
import FlakeWm.Schemes.ToFront
import FlakeWm.Schemes.Walk
import FlakeWm.Stacking.Family
import FlakeWm.Layouts.Model
import FlakeWm.TextInputs.Focus
import FlakeWm.Layouts.Restore
import FlakeWm.Schemes.Signals
import FlakeWm.WorkspaceThumbnails.Model
import FlakeWm.WorkspaceThumbnails.Entries
import FlakeWm.WorkspaceThumbnails.Runs
import FlakeWm.Constraints.Model
import FlakeWm.Constraints.Consistency
import FlakeWm.Constraints.Runs
import FlakeWm.Captures.Model
import FlakeWm.Captures.Links
import FlakeWm.Captures.Removal
import FlakeWm.Captures.Creation
import FlakeWm.Captures.Updates
import FlakeWm.Captures.Balance
import FlakeWm.Captures.Pictures
import FlakeWm.Captures.Freshness
import FlakeWm.Captures.Moves
import FlakeWm.Captures.Staleness
import FlakeWm.Interactive.Model
import FlakeWm.Interactive.Moves
import FlakeWm.Placing.Grid
import FlakeWm.Views.Tiling
import FlakeWm.Interactive.Resizes
import FlakeWm.Gestures.Model
import FlakeWm.Gestures.Registration
import FlakeWm.Keysyms.Model
import FlakeWm.Keysyms.Held
import FlakeWm.SceneTree.Model
import FlakeWm.SceneTree.Corners
import FlakeWm.SceneTree.Picture
import FlakeWm.SceneTree.SamePicture
import FlakeWm.Writers.Model
import FlakeWm.Writers.Runs
import FlakeWm.ShowDesktop.Model
import FlakeWm.ShowDesktop.Twice
import FlakeWm.CopyCapture.Finishing
import FlakeWm.CopyCapture.Log
import FlakeWm.CopyCapture.Handlers
import FlakeWm.CopyCapture.Loops
import FlakeWm.CopyCapture.Requests
import FlakeWm.CopyCapture.Runs
import FlakeWm.Hashing.Remainder
import FlakeWm.Outputs.Sorting
import FlakeWm.Idle.Model
import FlakeWm.Idle.Runs
import FlakeWm.Pointer.Clicks
import FlakeWm.Effects.Animator
import FlakeWm.Effects.Transform
import FlakeWm.TilePreview.Arrows
import FlakeWm.Effects.Interrupted
import FlakeWm.Effects.Uptime
import FlakeWm.TouchPoints.Model
import FlakeWm.TouchPoints.Prefix
import FlakeWm.Schemes.BinarySearch
import FlakeWm.Shortcuts.KeyTable
import FlakeWm.Shortcuts.RoundTrip
import FlakeWm.ThumbnailOffsets.Model
import FlakeWm.ThumbnailOffsets.Agreement
import FlakeWm.ThumbnailOffsets.Workspace
import FlakeWm.TextRelay.Model
import FlakeWm.TextRelay.Safety
import FlakeWm.TextRelay.Runs
import FlakeWm.ActiveOutputs.Model
import FlakeWm.ActiveOutputs.Refresh
import FlakeWm.ActiveOutputs.Trees
import FlakeWm.ActiveOutputs.Runs
import FlakeWm.OutputManager.Events
import FlakeWm.OutputManager.Accept
import FlakeWm.OutputManager.Lit
import FlakeWm.OutputManager.Runs
import FlakeWm.Damage.Collect
import FlakeWm.Damage.Held
import FlakeWm.Damage.Changes
import FlakeWm.Damage.Operations
import FlakeWm.Damage.Culling
