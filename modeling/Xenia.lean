import Xenia.Dix.AtomIntern
import Xenia.Xext.HashTableDestroy
import Xenia.Dix.PropertyDeletions
import Xenia.Dix.ResourceIds
import Xenia.Os.RequestReset
import Xenia.Xi.SelectionUnion
import Xenia.Xext.SyncAtomic
import Xenia.Xext.SyncBrackets
import Xenia.Dix.GrabRequests
import Xenia.Dix.TouchRuns
import Xenia.Dix.EnterLeaveCrossings
import Xenia.Os.TimerRuns
import Xenia.Dix.SelectionOwner
import Xenia.Dix.WorkQueueRuns
import Xenia.Dix.BlockHandlersRuns
import Xenia.Dix.PrivatesRuns
import Xenia.Xext.GlyphRuns
import Xenia.Xext.XkbRuns
import Xenia.Xext.XkbCoreMapRows
import Xenia.Xext.XkbVirtualMods
import Xenia.Xext.XkbResizeType
import Xenia.Dix.ClientTable
import Xenia.Dix.SmartSchedule
import Xenia.Xext.RecordSetMembers
import Xenia.Hw.OffscreenAreasTiled
import Xenia.Dix.PointerEventsBound
import Xenia.Dix.ServerGrabRuns
import Xenia.Os.PollRuns
import Xenia.Xi.DevicePropertyRuns
import Xenia.Xext.OutputPropertyRuns
import Xenia.Dix.EventConvertClasses
import Xenia.Mi.EventQueueTimes
import Xenia.Dix.ClientTime
import Xenia.Dix.ModifierMapChange
import Xenia.Dix.PropertyRotation
import Xenia.Dix.StateNotifySent
import Xenia.Dix.StoreColorsSeen
import Xenia.Dix.AllocCPMeets
import Xenia.Dix.ConfigureNotified
import Xenia.Os.ScreenSaver
import Xenia.Os.LogFormats
import Xenia.Xext.PresentMsc
import Xenia.Fb.Plane
import Xenia.Xext.PropertyReads
import Xenia.Fb.FillRect
import Xenia.Os.Admission
import Xenia.Dix.PropertyReadBack
